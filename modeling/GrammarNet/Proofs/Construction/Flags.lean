import GrammarNet.Proofs.Construction.Mixed

/-!
# Flags over a whole construction

No step of a construction lets the flag of a state stand that has a transition which consumes, unless the flag is
assigned directly. So a verification that looks at the flag alone never lets a state pass that mixes, or that has several
ways to consume.
-/

namespace GrammarNet

namespace Construction

open NetM

/-- The step does not assign the flag that tells whether a state consumes nothing. -/
def Step.SparesFlag : Step → Prop
  | .set _ (.epsilonOnly _) => False
  | _ => True

instance (step : Step) : Decidable step.SparesFlag := by
  unfold Step.SparesFlag
  split <;> infer_instance

section Flags

variable {work : Workspace}

/-- The flags of the later network are in order if those of the network are. -/
def KeepsFlags (net later : Network) : Prop := net.Flagged → later.Flagged

theorem KeepsFlags.refl (net : Network) : KeepsFlags net net := id

theorem KeepsFlags.trans
    {net later last : Network} (first : KeepsFlags net later) (second : KeepsFlags later last) : KeepsFlags net last :=
  second ∘ first

theorem keepsFlags_of_store_eq {net later : Network} (same : later.store = net.store) : KeepsFlags net later :=
  fun flagged => flagged.of_store_eq same

theorem keepsFlags_attach (work : Workspace) (source : Option StateId) (t : Transition) (position : Option Int) :
    KeepsFlags work.net ((attach source t position).runOn work).2.net := by
  intro flagged
  cases source with
  | none => exact flagged
  | some id =>
      rw [net_runOn_attach_eq_offered]
      exact flagged.modify (fun _ stands => stands.offered) id

theorem flagged_set {s : State} {value : Attribute} (flagged : s.Flagged) (spares : ∀ flag, value ≠ .epsilonOnly flag) :
    (s.set value).Flagged := by
  cases value with
  | epsilonOnly flag => exact absurd rfl (spares flag)
  | noTransitions => exact State.flagged_of_nil rfl
  | number | rule | owned | withinRule | decision | nonGreedy | endState | startState | loopBack | stopState
  | leftRecursive | precedenceDecision | other => exact flagged

theorem flagged_modify_set
    {net : Network} (flagged : net.Flagged) (id : StateId) (value : Attribute)
    (spares : ∀ flag, value ≠ .epsilonOnly flag) : (net.modify id (·.set value)).Flagged :=
  flagged.modify (fun _ stands => flagged_set stands spares) id

theorem keepsFlags_set (state : Option StateId) {value : Attribute} (spares : ∀ flag, value ≠ .epsilonOnly flag) :
    KeepsFlags work.net ((set state value).runOn work).2.net := by
  intro flagged
  cases state with
  | none => exact flagged
  | some id =>
      rw [runOn_set]
      exact flagged_modify_set flagged id value spares

theorem keepsFlags_withDecision (net : Network) (id : StateId) : KeepsFlags net (net.withDecision id) := by
  intro flagged
  have noted : Network.Flagged { net with decisions := net.decisions.push (some id) } := flagged.of_store_eq rfl
  exact flagged_modify_set noted id _ nofun

theorem keepsFlags_decision (state : Option StateId) :
    KeepsFlags work.net ((decision state).runOn work).2.net := by
  cases state with
  | none =>
      rw [runOn_decision_none]
      exact keepsFlags_of_store_eq rfl
  | some id =>
      rw [runOn_decision]
      exact keepsFlags_withDecision work.net id

theorem keepsFlags_defineMode (state : Option StateId) (name : Option String) :
    KeepsFlags work.net ((defineMode state name).runOn work).2.net := by
  obtain ⟨names, defined⟩ := runOn_defineMode state name work
  rw [defined]
  exact keepsFlags_of_store_eq rfl

theorem keepsFlags_list (state : Option StateId) : KeepsFlags work.net ((list state).runOn work).2.net := by
  cases state with
  | none => exact keepsFlags_of_store_eq rfl
  | some id =>
      intro flagged
      simp only [list, runOn_bind, runOn_network, runOn_change]
      have numbered := flagged.modify (f := fun s => { s with owned := true, number := work.net.slots.size })
        (fun _ stands => stands) id
      exact numbered.of_store_eq rfl

theorem keepsFlags_clear (slot : Int) : KeepsFlags work.net ((clear slot).runOn work).2.net := by
  simp only [clear, runOn_bind, runOn_network]
  cases position? work.net.slots.size slot with
  | none => exact .refl _
  | some place => exact keepsFlags_of_store_eq rfl

theorem keepsFlags_withRule (net : Network) (symbol : Symbol) : KeepsFlags net (net.withRule symbol) := by
  intro flagged
  have made := (flagged.grown .ruleStart net.ruleStarts.size).grown .ruleStop net.ruleStarts.size
  have linked := flagged_modify_set made net.store.size (.stopState (some (net.store.size + 1))) nofun
  exact linked.of_store_eq rfl

theorem keepsFlags_block (owner : Int) (kind : StateKind) :
    KeepsFlags work.net ((block owner kind).runOn work).2.net := by
  rw [runOn_block]
  intro flagged
  have made := (flagged.grown kind owner).grown .blockEnd owner
  have opened :=
    flagged_modify_set made work.net.store.size (.endState (some (work.net.store.size + 1))) nofun
  have closed :=
    flagged_modify_set opened (work.net.store.size + 1) (.startState (some work.net.store.size)) nofun
  exact keepsFlags_withDecision _ work.net.store.size closed

theorem keepsFlags_editTable (table : Table) (edit : TableEdit) :
    KeepsFlags work.net ((editTable table edit).runOn work).2.net := by
  apply runOn_bind_related (R := KeepsFlags) KeepsFlags.trans (.refl _)
  intro net _
  cases table with
  | ruleStarts | ruleStops | decisions =>
      apply runOn_bind_related (R := KeepsFlags) KeepsFlags.trans
      · rw [runOn_lift]
        exact .refl _
      · exact fun _ _ => keepsFlags_of_store_eq rfl

/-- No step spoils the flags unless it assigns one. -/
theorem keepsFlags_step {step : Step} (spares : step.SparesFlag) : KeepsFlags work.net (step.after work).net := by
  have settled : ∀ {α : Type} {action : NetM α} {f : α → Outcome}, KeepsFlags work.net (action.runOn work).2.net →
      KeepsFlags work.net ((action >>= fun a => pure (f a)).runOn work).2.net := by
    intro α action f keeps
    rw [runOn_bind_pure]
    exact keeps
  unfold Step.after
  cases step with
  | make kind owner => exact settled fun flagged => flagged.of_store_push rfl rfl
  | add kind owner =>
      apply settled
      rw [runOn_add]
      exact fun flagged => flagged.grown kind owner
  | list state =>
      apply runOn_bind_related (R := KeepsFlags) KeepsFlags.trans (keepsFlags_list state)
      exact fun _ _ => .refl _
  | clear slot => exact settled (keepsFlags_clear slot)
  | set state value =>
      apply settled
      apply keepsFlags_set
      rintro flag rfl
      exact spares
  | rule symbol =>
      apply settled
      rw [(runOn_rule symbol work).2]
      exact keepsFlags_withRule work.net symbol
  | block owner kind => exact settled (keepsFlags_block owner kind)
  | decision state => exact settled (keepsFlags_decision state)
  | mode state name =>
      apply settled
      apply runOn_bind_related (R := KeepsFlags) KeepsFlags.trans (keepsFlags_decision state)
      exact fun _ _ => keepsFlags_defineMode state name
  | defineMode state name => exact settled (keepsFlags_defineMode state name)
  | lexerAction action => exact keepsFlags_of_store_eq rfl
  | draw source target arrow =>
      apply settled
      exact runOn_draw_related (R := KeepsFlags) .refl KeepsFlags.trans keepsFlags_attach source target arrow work
  | connect source target kind position =>
      apply settled
      exact runOn_connect_related (R := KeepsFlags) .refl KeepsFlags.trans keepsFlags_attach source target kind position
        work
  | invoke source callee follow precedence =>
      apply settled
      exact runOn_invoke_related (R := KeepsFlags) .refl KeepsFlags.trans keepsFlags_attach source callee follow
        precedence work
  | editTable table edit => exact settled (keepsFlags_editTable table edit)
  | verify =>
      apply runOn_bind_related (R := KeepsFlags) KeepsFlags.trans (.refl _)
      intro net _
      rw [runOn_bind_pure, runOn_lift]
      exact .refl _
  | build verified =>
      apply settled
      rw [net_runOn_build]
      exact .refl _

theorem keepsFlags_runAll {steps : List Step} (spare : ∀ step ∈ steps, step.SparesFlag) :
    KeepsFlags work.net (runAll steps work).net := by
  induction steps generalizing work with
  | nil => exact .refl work.net
  | cons step rest inductionHypothesis =>
      have first : KeepsFlags work.net (step.after work).net := keepsFlags_step (spare step List.mem_cons_self)
      exact first.trans (inductionHypothesis fun other member => spare other (List.mem_cons_of_mem step member))

theorem flagged_begun (kind : NetworkKind) (maxSymbol : Symbol) (keepRuleSymbols : Bool) :
    (begun kind maxSymbol keepRuleSymbols).net.Flagged := fun _ => State.flagged_of_nil rfl

/-- On every state without transitions, whatever transitions are added to it, at whatever positions, one call after the
other: if it mixes, then this was noticed; and if all positions fit a signed word of 64 bits, then after each call it was
noticed only if it mixes, and the flag stands exactly if all its transitions consume nothing. And whatever steps are taken
to construct a network, a listed state that mixes, or has two or more transitions that consume, keeps it from being
verified, unless a flag was assigned directly. -/
theorem mixing_is_noticed :
    (∀ (work : Workspace) (id : StateId) (calls : List (Transition × Option Int)),
      id < work.net.store.size → (work.net.state id).transitions = [] →
        ∃ times, (attachAll id calls work).log =
            work.log ++ List.replicate times (.mixedTransitions (work.net.state id).number) ∧
          (((attachAll id calls work).net.state id).Mixed → 0 < times) ∧
          ((∀ call ∈ calls, call.2.all addressable = true) → calls ≠ [] →
            (0 < times → ((attachAll id calls work).net.state id).Mixed) ∧
            (((attachAll id calls work).net.state id).epsilonOnly = some true ↔
              ((attachAll id calls work).net.state id).transitions ≠ [] ∧
                ∀ t ∈ ((attachAll id calls work).net.state id).transitions, t.isEpsilon = true))) ∧
    ∀ (kind : NetworkKind) (maxSymbol : Symbol) (keepRuleSymbols : Bool) (steps : List Step),
      (∀ step ∈ steps, step.SparesFlag) →
        ∀ id ∈ (runAll steps (begun kind maxSymbol keepRuleSymbols)).net.listed,
          ((runAll steps (begun kind maxSymbol keepRuleSymbols)).net.state id).Entangled →
            (runAll steps (begun kind maxSymbol keepRuleSymbols)).net.verify ≠ .ok () := by
  constructor
  · intro work id calls made empty
    obtain ⟨times, log, watched, told⟩ := exists_noticed made empty calls
    refine ⟨times, log, watched.pos_of_mixed, fun proper nonempty => ?_⟩
    have filled := told proper nonempty
    exact ⟨filled.noticed, filled.flag_iff watched.flagged⟩
  · intro kind maxSymbol keepRuleSymbols steps spare id listed entangled
    have flagged := keepsFlags_runAll spare (flagged_begun kind maxSymbol keepRuleSymbols)
    exact Network.verify_ne_ok_of_entangled listed (flagged id) entangled

/-- Two states without transitions. -/
def twoStates : Workspace := runAll [.add .basic 0, .add .basic 0] (begun .parser 3 false)

/-- A transition that consumes nothing is added behind the end, and one that consumes far before the front; a network has
two transitions that consume from one state. -/
theorem mixing_is_noticed_twoStates :
    (∃ times,
      (attachAll 0 [(⟨1, .epsilon (-1)⟩, some 5), (⟨1, .atom 1 (.single 1)⟩, some (-7))] twoStates).log =
          twoStates.log ++ List.replicate times (.mixedTransitions (twoStates.net.state 0).number) ∧
        (0 < times →
          ((attachAll 0 [(⟨1, .epsilon (-1)⟩, some 5), (⟨1, .atom 1 (.single 1)⟩, some (-7))]
            twoStates).net.state 0).Mixed)) ∧
      (runAll [.add .basic 0, .connect (some 0) (some 0) (.atom 1 (.single 1)) none,
        .connect (some 0) (some 0) (.atom 2 (.single 2)) (some (-3))] (begun .parser 3 false)).net.verify ≠ .ok () := by
  constructor
  · obtain ⟨times, log, _, proper⟩ :=
      mixing_is_noticed.1 twoStates 0 [(⟨1, .epsilon (-1)⟩, some 5), (⟨1, .atom 1 (.single 1)⟩, some (-7))]
        (by decide +kernel) rfl
    exact ⟨times, log, (proper (by decide) (by decide)).1⟩
  · exact mixing_is_noticed.2 .parser 3 false
      [.add .basic 0, .connect (some 0) (some 0) (.atom 1 (.single 1)) none,
        .connect (some 0) (some 0) (.atom 2 (.single 2)) (some (-3))]
      (by decide) 0 (by decide +kernel) (Or.inr (by decide +kernel))

/-- A call with a number that is no position raises the flag of a state that has no transition then. -/
theorem flag_stands_without_transitions :
    ¬ ∀ (work : Workspace) (id : StateId) (calls : List (Transition × Option Int)),
      id < work.net.store.size → (work.net.state id).transitions = [] → calls ≠ [] →
        (((attachAll id calls work).net.state id).epsilonOnly = some true ↔
          ((attachAll id calls work).net.state id).transitions ≠ [] ∧
            ∀ t ∈ ((attachAll id calls work).net.state id).transitions, t.isEpsilon = true) := by
  intro claim
  have tells := claim twoStates 0 [(⟨1, .epsilon (-1)⟩, some 1180591620717411303424)] (by decide +kernel) rfl
    (List.cons_ne_nil _ _)
  have stands : ((attachAll 0 [(⟨1, .epsilon (-1)⟩, some 1180591620717411303424)] twoStates).net.state 0).epsilonOnly =
      some true := by
    decide +kernel
  have empty : ((attachAll 0 [(⟨1, .epsilon (-1)⟩, some 1180591620717411303424)] twoStates).net.state 0).transitions =
      [] := by
    rfl
  exact (tells.mp stands).1 empty

end Flags

end Construction

end GrammarNet
