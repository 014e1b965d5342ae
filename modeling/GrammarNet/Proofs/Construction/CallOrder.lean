import Mathlib.Control.Monad.Basic
import GrammarNet.Proofs.Construction.Returns

/-!
# Where the stops of rules lead

A finished network has a return for each of its invocations. If no step starts from the stop of a rule, then a stop
leads nowhere else: to the states where the successful invocations of its rule go on, one for each of them, in their
order. An invocation that fails has no return, but may have left its transition; then the network is not finished with
success.
-/

namespace GrammarNet

namespace Construction

open NetM

/-! ## The returns that steps make -/

/-- The state from which a step draws a transition or invokes a rule. -/
def Step.source? : Step → Option StateId
  | .draw source _ _ | .connect source _ _ _ | .invoke source _ _ _ => source
  | _ => none

/-- The step does not start from the stop of a rule. -/
def Step.SparesStops (net : Network) (step : Step) : Prop := ∀ id ∈ step.source?, some id ∉ net.ruleStops

instance (net : Network) (step : Step) : Decidable (step.SparesStops net) :=
  inferInstanceAs (Decidable (∀ id ∈ step.source?, some id ∉ net.ruleStops))

/-- Where the invoking rule goes on, if the step invokes the rule with success. The rule may be named by an index that
counts from the back. -/
def Step.returned (rule : Nat) (work : Workspace) (step : Step) : List StateId :=
  match step with
  | .invoke _ index follow _ =>
      if position? work.net.ruleStarts.size index = some rule ∧ (step.run.runOn work).1.isOk = true then follow.toList
      else []
  | _ => []

/-- Where the invoking rules go on, for each successful invocation of the rule, in their order. -/
def returned (rule : Nat) : List Step → Workspace → List StateId
  | [], _ => []
  | step :: rest, work => step.returned rule work ++ returned rule rest (step.after work)

/-! ## A record of returns -/

/-- The stop of each rule leads to the states that the record has for the rule, in their order. It has none for rules
that are still to come. -/
structure Recorded (net : Network) (record : Nat → List StateId) : Prop where
  targets : ∀ rule stop, net.ruleStops[rule]? = some (some stop) →
    (net.state stop).transitions.map Transition.target = record rule
  later : ∀ rule, net.ruleStops.size ≤ rule → record rule = []

/-- The stops of rules stay as they are, and lead where they led. -/
structure Rests (net later : Network) : Prop where
  stops : later.ruleStops = net.ruleStops
  transitions : ∀ id, some id ∈ net.ruleStops → (later.state id).transitions = (net.state id).transitions

section Recorded

variable {net later last : Network} {work : Workspace} {id : StateId} {record : Nat → List StateId}

theorem Rests.refl (net : Network) : Rests net net := ⟨rfl, fun _ _ => rfl⟩

theorem Rests.trans (first : Rests net later) (second : Rests later last) : Rests net last where
  stops := second.stops.trans first.stops
  transitions := fun id member =>
    (second.transitions id (first.stops ▸ member)).trans (first.transitions id member)

/-! ### States that keep their transitions -/

theorem transitions_grown (net : Network) (kind : StateKind) (rule : Int) (id : StateId) :
    ((net.grown kind rule).state id).transitions = (net.state id).transitions := by
  rcases state_grown_cases net kind rule id with ⟨_, old⟩ | ⟨rfl, new⟩
  · rw [old]
  · rw [new, Network.state_of_size_le (Nat.le_refl _)]
    rfl

theorem transitions_modify_set (net : Network) (id other : StateId) {value : Attribute} (free : value.Free) :
    ((net.modify id (·.set value)).state other).transitions = (net.state other).transitions := by
  obtain ⟨f, _, same⟩ := State.set_free free
  rcases net.state_modify id other (·.set value) with kept | ⟨_, changed⟩
  · rw [kept]
  · rw [changed, same]

theorem transitions_withDecision (net : Network) (id other : StateId) :
    ((net.withDecision id).state other).transitions = (net.state other).transitions :=
  transitions_modify_set { net with decisions := net.decisions.push (some id) } id other trivial

theorem transitions_withEnds (net : Network) (rule : Int) (kind : StateKind) (id : StateId) :
    ((net.withEnds rule kind).state id).transitions = (net.state id).transitions := by
  have opens : ∀ (net : Network) id link other,
      ((net.modify id (·.set (.endState link))).state other).transitions = (net.state other).transitions :=
    fun net id _ other => transitions_modify_set net id other trivial
  have closes : ∀ (net : Network) id link other,
      ((net.modify id (·.set (.startState link))).state other).transitions = (net.state other).transitions :=
    fun net id _ other => transitions_modify_set net id other trivial
  unfold Network.withEnds
  simp only [closes, opens, transitions_grown]

theorem transitions_withRule (net : Network) (symbol : Symbol) (id : StateId) :
    ((net.withRule symbol).state id).transitions = (net.state id).transitions := by
  have links : ∀ (net : Network) id link other,
      ((net.modify id (·.set (.stopState link))).state other).transitions = (net.state other).transitions :=
    fun net id _ other => transitions_modify_set net id other trivial
  show (net.withLimits.state id).transitions = (net.state id).transitions
  unfold Network.withLimits
  rw [links, transitions_grown, transitions_grown]

/-! ### Operations that spare the stops -/

theorem rests_decision (state : Option StateId) : Rests work.net ((decision state).runOn work).2.net := by
  cases state with
  | none =>
      rw [runOn_decision_none]
      exact ⟨rfl, fun _ _ => rfl⟩
  | some id =>
      rw [runOn_decision]
      exact ⟨rfl, fun other _ => transitions_withDecision work.net id other⟩

theorem rests_mode (state : Option StateId) (name : Option String) :
    Rests work.net ((mode state name).runOn work).2.net := by
  apply runOn_bind_related (R := Rests) Rests.trans
  · exact rests_decision state
  · intro _ _
    exact ⟨rfl, fun _ _ => rfl⟩

theorem rests_addTransition (spared : some id ∉ net.ruleStops) (t : Transition) :
    Rests net (net.modify id (·.addTransition t none)) where
  stops := rfl
  transitions := by
    intro other member
    have apart : other ≠ id := by
      rintro rfl
      exact spared member
    rw [Network.state_modify_of_ne apart]

theorem rests_connect
    {source : Option StateId} (spared : ∀ id ∈ source, some id ∉ work.net.ruleStops) (target : Option StateId)
    (kind : TransitionKind) : Rests work.net ((connect source target kind none).runOn work).2.net := by
  cases target with
  | none => exact .refl work.net
  | some goal =>
      cases source with
      | none => exact .refl work.net
      | some id =>
          rw [(runOn_connect id goal kind work).2]
          exact rests_addTransition (spared id rfl) ⟨goal, kind⟩

theorem rests_draw
    {source : Option StateId} (spared : ∀ id ∈ source, some id ∉ work.net.ruleStops) (target : Option StateId)
    (arrow : Arrow) : Rests work.net ((draw source target arrow).runOn work).2.net := by
  apply runOn_bind_related (R := Rests) Rests.trans (.refl work.net)
  intro net _
  apply runOn_bind_related (R := Rests) Rests.trans
  · rw [runOn_lift]
    exact .refl work.net
  · intro kind _
    rw [runOn_lift]
    exact rests_connect spared target kind

/-! ### The record of a step -/

theorem Recorded.rests (recorded : Recorded net record) (rests : Rests net later) : Recorded later record where
  targets := by
    intro rule stop entry
    rw [rests.stops] at entry
    rw [rests.transitions stop (Array.mem_of_getElem? entry)]
    exact recorded.targets rule stop entry
  later := fun rule beyond => recorded.later rule (rests.stops ▸ beyond)

theorem Recorded.withRule (recorded : Recorded net record) (symbol : Symbol) :
    Recorded (net.withRule symbol) record := by
  have stops : (net.withRule symbol).ruleStops = net.ruleStops.push (some (net.store.size + 1)) := rfl
  constructor
  · intro rule stop entry
    rw [transitions_withRule]
    rw [stops] at entry
    rcases entry_of_push entry with ⟨rfl, same⟩ | old
    · -- The stop of the new rule leads nowhere yet.
      obtain rfl := Option.some.inj same
      rw [Network.state_of_size_le (Nat.le_succ _), recorded.later _ (Nat.le_refl _)]
      rfl
    · exact recorded.targets rule stop old
  · intro rule beyond
    rw [stops, Array.size_push] at beyond
    exact recorded.later rule (Nat.le_of_succ_le beyond)

theorem Recorded.returned
    (recorded : Recorded net record) (assembled : Assembled net) {rule : Nat} {stop next : StateId}
    (entry : net.ruleStops[rule]? = some (some stop)) (outermost : Int) :
    Recorded (net.modify stop (·.addTransition ⟨next, .epsilon outermost⟩ none)) fun other =>
      record other ++ if other = rule then [next] else [] := by
  have marked : ∀ {rule stop}, net.ruleStops[rule]? = some (some stop) → net.Marks .ruleStop rule stop := by
    intro rule stop entry
    rcases assembled.stops rule _ entry with ⟨known, present, marks⟩
    injection present with same
    rw [same]
    exact marks
  constructor
  · intro other state otherEntry
    have before := recorded.targets other state otherEntry
    by_cases same : other = rule
    · subst same
      have sameStop : state = stop := Option.some.inj (Option.some.inj (otherEntry.symm.trans entry))
      subst sameStop
      rw [Network.state_modify_self (marked entry).made, if_pos rfl, ← before]
      exact List.map_append
    · -- Two rules never share a stop, since it is marked with the index of its rule.
      have apart : state ≠ stop := by
        rintro rfl
        exact same (Int.ofNat_inj.mp ((marked otherEntry).rule.symm.trans (marked entry).rule))
      rw [Network.state_modify_of_ne apart, if_neg same, List.append_nil]
      exact before
  · intro other beyond
    have known : rule < net.ruleStops.size := (Array.getElem?_eq_some_iff.mp entry).1
    rw [recorded.later other beyond, if_neg (Nat.ne_of_gt (Nat.lt_of_lt_of_le known beyond))]
    rfl

theorem Recorded.invoke
    {source follow : Option StateId} {index precedence : Int} (recorded : Recorded work.net record)
    (assembled : Assembled work.net) (followKnown : Known work.net.store.size follow)
    (spared : ∀ id ∈ source, some id ∉ work.net.ruleStops) :
    Recorded ((Construction.invoke source index follow precedence).runOn work).2.net fun rule =>
      record rule ++
        if position? work.net.ruleStarts.size index = some rule ∧
            ((Construction.invoke source index follow precedence).runOn work).1.isOk = true then follow.toList
        else [] := by
  have turned := invocation_runOn assembled source index follow precedence
  generalize ((Construction.invoke source index follow precedence).runOn work).1 = outcome at turned ⊢
  generalize ((Construction.invoke source index follow precedence).runOn work).2.net = later at turned ⊢
  cases turned with
  | refused =>
      simp only [Except.isOk, Except.toBool, Bool.false_eq_true, and_false, if_false, List.append_nil]
      exact recorded
  | stranded invoker _ _ =>
      simp only [Except.isOk, Except.toBool, Bool.false_eq_true, and_false, if_false, List.append_nil]
      exact recorded.rests (rests_addTransition (spared _ invoker) _)
  | @returned id start stop next rule outermost invoker goesOn place callee =>
      have drawn : Assembled (work.net.modify id (·.addTransition ⟨start, .rule index precedence (some next)⟩ none)) := by
        apply assembled.addTransition
        apply assembled.made_rule callee
        intro other same
        exact followKnown other (goesOn.trans same)
      have kept := recorded.rests (rests_addTransition (spared id invoker) ⟨start, .rule index precedence (some next)⟩)
      have sameRule : ∀ other, (some rule = some other) = (other = rule) := fun other => by
        rw [Option.some.injEq, eq_comm (a := other)]
      simp only [place, sameRule, Except.isOk, Except.toBool, and_true, goesOn, Option.toList]
      exact kept.returned drawn callee.stop outermost

theorem Recorded.step
    {step : Step} (recorded : Recorded work.net record) (assembled : Assembled work.net)
    (offered : step.Offered false work.net.store.size) (spares : step.SparesStops work.net) :
    Recorded (step.after work).net fun rule => record rule ++ step.returned rule work := by
  have rested : ∀ {later : Network}, Rests work.net later → Recorded later fun rule => record rule ++ [] := by
    intro later rests
    simp only [List.append_nil]
    exact recorded.rests rests
  unfold Step.after
  cases step with
  | add kind owner =>
      rw [Step.run, runOn_bind_pure, runOn_add]
      exact rested ⟨rfl, fun id _ => transitions_grown work.net kind owner id⟩
  | set state value =>
      cases state with
      | none => exact rested (.refl work.net)
      | some id =>
          rw [Step.run, runOn_bind, runOn_set]
          exact rested ⟨rfl, fun other _ => transitions_modify_set work.net id other offered.2⟩
  | rule symbol =>
      have after : ((Step.rule symbol).run.runOn work).2.net = work.net.withRule symbol := by
        rw [Step.run, runOn_bind_pure]
        exact (runOn_rule symbol work).2
      rw [after]
      simp only [Step.returned, List.append_nil]
      exact recorded.withRule symbol
  | block owner kind =>
      rw [Step.run, runOn_bind_pure, runOn_block]
      refine rested ⟨rfl, fun id _ => ?_⟩
      exact (transitions_withDecision _ _ id).trans (transitions_withEnds work.net owner kind id)
  | decision state =>
      rw [Step.run, runOn_bind_pure]
      exact rested (rests_decision state)
  | mode state name =>
      rw [Step.run, runOn_bind_pure]
      exact rested (rests_mode state name)
  | lexerAction action => exact rested ⟨rfl, fun _ _ => rfl⟩
  | draw source target arrow =>
      rw [Step.run, runOn_bind_pure]
      exact rested (rests_draw spares target arrow)
  | connect source target kind position =>
      obtain rfl : position = none := offered.2.2.2.2.2
      rw [Step.run, runOn_bind_pure]
      exact rested (rests_connect spares target kind)
  | invoke source index follow precedence =>
      have kept : ∀ outcome : Except Fault Transition, (outcome.map Outcome.transition).isOk = outcome.isOk := by
        intro outcome
        cases outcome <;> rfl
      simp only [Step.returned, Step.run, runOn_bind_pure, kept]
      exact recorded.invoke assembled offered.2 spares
  | build verified =>
      rw [Step.run, runOn_bind_pure, net_runOn_build]
      exact rested (.refl work.net)
  | make | list | clear | defineMode | editTable | verify => exact offered.elim

theorem Recorded.runAll
    {steps : List Step} (recorded : Recorded work.net record) (assembled : Assembled work.net)
    (offered : AllOffered false steps work) (spares : Throughout Step.SparesStops steps work) :
    Recorded (runAll steps work).net fun rule => record rule ++ Construction.returned rule steps work := by
  induction steps generalizing work record with
  | nil =>
      simp only [Construction.returned, List.append_nil]
      exact recorded
  | cons step rest inductionHypothesis =>
      have next := recorded.step assembled offered.1 spares.1
      have kept := inductionHypothesis next (assembled.changes (changes_step assembled offered.1)) offered.2 spares.2
      simp only [List.append_assoc] at kept
      exact kept

end Recorded

/-! ## Finished networks -/

/-- In a finished network, every invocation goes on somewhere, and the stop that belongs to what it enters leads there.
If no step started from the stop of a rule, then the stop of each rule leads to where the successful invocations of the
rule go on, in their order, and nowhere else. -/
theorem returns_complete
    (kind : NetworkKind) (maxSymbol : Symbol) (keepRuleSymbols : Bool) (steps : List Step)
    (offered : AllOffered false steps (begun kind maxSymbol keepRuleSymbols))
    (succeeds : ((build true).runOn (runAll steps (begun kind maxSymbol keepRuleSymbols))).1 = .ok ()) :
    let net := ((build true).runOn (runAll steps (begun kind maxSymbol keepRuleSymbols))).2.net
    (∀ id ∈ net.listed, ∀ t ∈ (net.state id).transitions, t.isRule = true →
      ∃ rule stop next outermost, net.Delimits rule t.target stop ∧
        (net.state t.target).attributes.stopState = some (some stop) ∧ t.kind.follow? = some next ∧
          ⟨next, .epsilon outermost⟩ ∈ (net.state stop).transitions) ∧
    (Throughout Step.SparesStops steps (begun kind maxSymbol keepRuleSymbols) →
      ∀ rule stop, net.ruleStops[rule]? = some (some stop) →
        (net.state stop).transitions.map Transition.target =
          returned rule steps (begun kind maxSymbol keepRuleSymbols)) := by
  have finished : Finished false _ := .intro kind maxSymbol keepRuleSymbols steps offered succeeds
  have verified := finished.verified
  have returning := finished.returning
  constructor
  · intro id listed t member invokes
    obtain ⟨rule, stop, delimits, returns⟩ := returning id t member invokes
    obtain ⟨next, follow⟩ := Option.isSome_iff_exists.mp (Network.alone_of_verify verified listed member invokes).2
    obtain ⟨outermost, edge⟩ := returns next follow
    exact ⟨rule, stop, next, outermost, delimits, Network.stopState_of_verify verified delimits, follow, edge⟩
  · intro spares rule stop entry
    rw [net_runOn_build] at entry ⊢
    have opened : Recorded (begun kind maxSymbol keepRuleSymbols).net fun _ => [] :=
      ⟨(fun rule stop found => nomatch found), fun _ _ => rfl⟩
    have recorded := opened.runAll (assembled_initial kind maxSymbol keepRuleSymbols) offered spares
    exact recorded.targets rule stop entry

/-- The steps for `s : e e ;` and `e : 1 ;`, of which the second invocation names its rule from the back. One more
invocation fails, as there is no such rule. -/
def pairSteps : List Step :=
  [.rule 0, .rule 0, .add .basic 0, .add .basic 0, .add .basic 0,
    .draw (some 0) (some 4) (.epsilon (-1)), .invoke (some 4) 1 (some 5) 0, .invoke (some 5) 7 (some 6) 0,
    .invoke (some 5) (-1) (some 6) 0, .draw (some 6) (some 1) (.epsilon (-1)), .draw (some 2) (some 3) (.atom 1)]

theorem returns_complete_pair :
    AllOffered false pairSteps (begun .parser 1 false) ∧
      ((build true).runOn (runAll pairSteps (begun .parser 1 false))).1 = .ok () ∧
      Throughout Step.SparesStops pairSteps (begun .parser 1 false) ∧
      ((((build true).runOn (runAll pairSteps (begun .parser 1 false))).2.net.state 3).transitions.map
        Transition.target) = [5, 6] := by
  have offered : AllOffered false pairSteps (begun .parser 1 false) := by decide +kernel
  have succeeds : ((build true).runOn (runAll pairSteps (begun .parser 1 false))).1 = .ok () := by decide +kernel
  have spares : Throughout Step.SparesStops pairSteps (begun .parser 1 false) := by decide +kernel
  have entry : ((build true).runOn (runAll pairSteps (begun .parser 1 false))).2.net.ruleStops[1]? = some (some 3) := by
    decide +kernel
  have follows : returned 1 pairSteps (begun .parser 1 false) = [5, 6] := by decide +kernel
  refine ⟨offered, succeeds, spares, ?_⟩
  rw [← follows]
  exact (returns_complete .parser 1 false pairSteps offered succeeds).2 spares 1 3 entry

end Construction

end GrammarNet
