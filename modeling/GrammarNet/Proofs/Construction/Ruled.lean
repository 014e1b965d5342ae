import GrammarNet.Proofs.Construction.Returns
import GrammarNet.Proofs.Lookahead.Exact
import GrammarNet.Proofs.Pushdown.Collapse
import GrammarNet.Proofs.Search.Recast

/-!
# Networks of rules

A finished network in which every state keeps to its rule is well-formed, each of its rules is entered at one start, and
the stop of a rule leads back to all that invoke it. A state that looks like the start of a rule, but was not made
together with one, does not count: the network is recast so that the tables say where rules start.
-/

namespace GrammarNet

namespace Network

/-- The states of the network keep to their rules: an invoking rule goes on in the same rule, other transitions stay in
it, nothing leads to the start of a mode, and every stop is that of a rule. -/
structure Ruled (net : Network) : Prop where
  follows : ∀ id ∈ net.listed, ∀ t ∈ (net.state id).transitions, ∀ next ∈ t.kind.follow?,
    (net.state next).rule = (net.state id).rule
  within : ∀ id ∈ net.listed, (net.state id).kind ≠ .ruleStop → (net.state id).kind ≠ .tokensStart →
    ∀ t ∈ (net.state id).transitions, t.isRule = false → (net.state t.target).rule = (net.state id).rule
  modes : ∀ id ∈ net.listed, ∀ t ∈ (net.state id).transitions, (net.state t.target).kind ≠ .tokensStart ∧
    ∀ next ∈ t.kind.follow?, (net.state next).kind ≠ .tokensStart
  stops : ∀ id ∈ net.listed, (net.state id).kind = .ruleStop → some id ∈ net.ruleStops

theorem ruled_iff (net : Network) :
    net.Ruled ↔
      (∀ id ∈ net.listed, ∀ t ∈ (net.state id).transitions, ∀ next ∈ t.kind.follow?,
        (net.state next).rule = (net.state id).rule) ∧
      (∀ id ∈ net.listed, (net.state id).kind ≠ .ruleStop → (net.state id).kind ≠ .tokensStart →
        ∀ t ∈ (net.state id).transitions, t.isRule = false → (net.state t.target).rule = (net.state id).rule) ∧
      (∀ id ∈ net.listed, ∀ t ∈ (net.state id).transitions, (net.state t.target).kind ≠ .tokensStart ∧
        ∀ next ∈ t.kind.follow?, (net.state next).kind ≠ .tokensStart) ∧
      ∀ id ∈ net.listed, (net.state id).kind = .ruleStop → some id ∈ net.ruleStops :=
  ⟨fun ruled => ⟨ruled.follows, ruled.within, ruled.modes, ruled.stops⟩,
    fun ⟨follows, within, modes, stops⟩ => ⟨follows, within, modes, stops⟩⟩

instance (net : Network) : Decidable net.Ruled := decidable_of_iff _ net.ruled_iff.symm

/-- No rule of the tables can come back to itself and also match nothing. -/
def GuardedRules (net : Network) : Prop :=
  ∀ rule start stop, net.Delimits rule start stop → ¬ (net.ReachesItself start ∧ net.CanEnd start)

/-- If the starts of all rules are among such states, then no rule of the tables matches nothing. -/
theorem Unstopped.guardedRules
    {net : Network} {states : List StateId} (unstopped : net.Unstopped states)
    (starts : ∀ entry ∈ net.ruleStarts, ∀ start ∈ entry, start ∈ states) : net.GuardedRules := by
  intro rule start stop delimits both
  have known : start ∈ states := starts _ (Array.mem_of_getElem? delimits.start) start rfl
  exact unstopped.not_canEnd known both.2

/-- The tables say that a rule starts in the state. -/
def registers (net : Network) (id : StateId) : Bool := decide (some id ∈ net.ruleStarts)

theorem registers_iff {net : Network} {id : StateId} :
    net.registers id = true ↔ ∃ rule : Nat, net.ruleStarts[rule]? = some (some id) := by
  unfold registers
  rw [decide_eq_true_iff, Array.mem_iff_getElem?]

end Network

namespace Construction

section Ruled

variable {net : Network} {id other : StateId} {t u : Transition}

/-- What an invocation enters is the start of the rule to which it belongs. -/
theorem Returning.marks
    (returning : Returning net) (assembled : Assembled net) (member : t ∈ (net.state id).transitions)
    (invokes : t.isRule = true) :
    ∃ rule stop, net.Delimits rule t.target stop ∧ net.Marks .ruleStart rule t.target ∧ net.Marks .ruleStop rule stop := by
  obtain ⟨rule, stop, delimits, _⟩ := returning id t member invokes
  obtain ⟨starts, stops⟩ := assembled.delimits delimits
  exact ⟨rule, stop, delimits, starts, stops⟩

/-- A rule of the tables has one start. -/
theorem Assembled.eq_of_rule_eq
    (assembled : Assembled net) (registers : net.registers id = true) (also : net.registers other = true)
    (same : (net.state id).rule = (net.state other).rule) : id = other := by
  obtain ⟨rule, entry⟩ := Network.registers_iff.mp registers
  obtain ⟨place, alsoEntry⟩ := Network.registers_iff.mp also
  obtain ⟨_, present, marks⟩ := assembled.starts rule _ entry
  obtain ⟨_, alsoPresent, alsoMarks⟩ := assembled.starts place _ alsoEntry
  obtain rfl := Option.some.inj present
  obtain rfl := Option.some.inj alsoPresent
  rw [marks.rule, alsoMarks.rule] at same
  obtain rfl := Int.ofNat_inj.mp same
  rw [entry] at alsoEntry
  exact Option.some.inj (Option.some.inj alsoEntry)

theorem Returning.registers
    (returning : Returning net) (member : t ∈ (net.state id).transitions) (invokes : t.isRule = true) :
    net.registers t.target = true := by
  obtain ⟨rule, _, delimits, _⟩ := returning id t member invokes
  exact Network.registers_iff.mpr ⟨rule, delimits.start⟩

/-! ## Recast by the tables -/

theorem wellFormed_of_ruled
    (assembled : Assembled net) (returning : Returning net) (verified : net.verify = .ok ()) (ruled : net.Ruled) :
    (net.recast net.registers).WellFormed := by
  apply (assembled.navigable verified).wellFormed_recast
  · exact fun id listed => assembled.mem_listed_iff.mp listed
  · intro id _ t member invokes
    obtain ⟨_, _, _, starts, _⟩ := returning.marks assembled member invokes
    refine ⟨?_, returning.registers member invokes⟩
    rw [starts.kind]
    exact StateKind.noConfusion
  · intro id listed t member
    obtain ⟨target, follow⟩ := ruled.modes id listed t member
    exact ⟨fun begins => absurd begins target, fun next goesOn begins => absurd begins (follow next goesOn)⟩
  · exact ruled.follows
  · intro id listed goesOn begins t member plain
    apply ruled.within id listed goesOn _ t member plain
    intro mode
    -- The start of a mode is not the start of a rule, so the tables do not say so.
    obtain ⟨rule, entry⟩ := Network.registers_iff.mp (begins mode)
    obtain ⟨_, present, marks⟩ := assembled.starts rule _ entry
    obtain rfl := Option.some.inj present
    rw [marks.kind] at mode
    contradiction

/-- All invocations of a rule enter it at the one start that it has. -/
theorem singleEntry_of_returning (assembled : Assembled net) (returning : Returning net) :
    (net.recast net.registers).SingleEntry := by
  have same := net.sameGraph_recast net.registers
  apply Network.singleEntry_of_targets
  intro first _ second _ t inFirst u inSecond invokes alsoInvokes sameRule
  rw [same.transitions] at inFirst inSecond
  rw [same.rule, same.rule] at sameRule
  exact assembled.eq_of_rule_eq (returning.registers inFirst invokes) (returning.registers inSecond alsoInvokes) sameRule

/-- What the tables say of their rules holds of all states that start a rule when the network is recast. -/
theorem guarded_of_guardedRules (assembled : Assembled net) (guarded : net.GuardedRules) :
    (net.recast net.registers).Guarded := by
  have same := net.sameGraph_recast net.registers
  have known : ∀ {id}, id ∈ net.listed → ((net.recast net.registers).state id).kind = .ruleStart →
      net.registers id = true := by
    intro id listed starts
    rw [Network.state_recast (assembled.mem_listed_iff.mp listed), State.kind_recast_eq_ruleStart_iff] at starts
    exact starts.2
  rintro rule ⟨⟨entry, listed, starts, sameRule, p, comesBack, t, member, invokes, again⟩,
    other, otherListed, alsoStarts, alsoRule, stop, ends, stops, _⟩
  rw [same.rule] at sameRule alsoRule
  have one : other = entry :=
    assembled.eq_of_rule_eq (known otherListed alsoStarts) (known listed starts) (alsoRule.trans sameRule.symm)
  subst one
  obtain ⟨place, entry⟩ := Network.registers_iff.mp (known listed starts)
  have paired : place < net.ruleStops.size := by
    rw [assembled.paired]
    exact (Array.getElem?_eq_some_iff.mp entry).1
  obtain ⟨close, present, _⟩ := assembled.stops place _ (Array.getElem?_eq_getElem paired)
  have delimits : net.Delimits place other close := ⟨entry, by rw [Array.getElem?_eq_getElem paired, present]⟩
  apply guarded place other close delimits
  constructor
  · have recursive : (net.recast net.registers).ReachesItself other :=
      ⟨p, comesBack, t, member, invokes, again.trans (by rw [same.rule, alsoRule])⟩
    exact same.samePaths.symm.reachesItself recursive
  · have canEnd : (net.recast net.registers).CanEnd other := ⟨stop, ends, stops⟩
    exact same.samePaths.symm.canEnd canEnd

/-- On a finished network whose states keep to their rules, lookahead can be read off the paths. -/
theorem regular_of_ruled
    {P : Range → Prop} (assembled : Assembled net) (returning : Returning net) (verified : net.verify = .ok ())
    (ruled : net.Ruled) (labelled : net.Labelled P) (guarded : net.GuardedRules) :
    (net.recast net.registers).Regular P where
  shape := wellFormed_of_ruled assembled returning verified ruled
  labelled := (net.sameGraph_recast net.registers).samePaths.labelled labelled
  guarded := guarded_of_guardedRules assembled guarded
  single := singleEntry_of_returning assembled returning

/-- Every stop leads back, since it is the stop of the rule that was invoked. -/
theorem leadsBack_of_ruled (assembled : Assembled net) (returning : Returning net) (ruled : net.Ruled) :
    net.LeadsBack := by
  intro stop listed stops invoker _ t member invokes sameRule next follow
  obtain ⟨rule, known, delimits, returns⟩ := returning invoker t member invokes
  obtain ⟨starts, _⟩ := assembled.delimits delimits
  have kind : (net.state stop).kind = .ruleStop := eq_of_beq stops
  obtain ⟨place, entry⟩ := Array.mem_iff_getElem?.mp (ruled.stops stop listed kind)
  obtain ⟨same, present, marks⟩ := assembled.stops place _ entry
  obtain rfl := Option.some.inj present
  have samePlace : rule = place := by
    rw [starts.rule, marks.rule] at sameRule
    exact Int.ofNat_inj.mp sameRule
  subst samePlace
  have sameStop := delimits.stop
  rw [entry] at sameStop
  obtain rfl := Option.some.inj (Option.some.inj sameStop)
  exact returns next follow

end Ruled

end Construction

end GrammarNet
