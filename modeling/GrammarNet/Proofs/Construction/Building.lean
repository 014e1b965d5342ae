import GrammarNet.Proofs.Construction.Operations

/-!
# Runs of a builder

The steps that a builder offers, and what any sequence of them, failing ones included, makes of a network.
-/

namespace GrammarNet

/-- The attribute is one that a builder leaves to be set on the states it has made: a link, a decision number, or a flag,
but none that says what the state is or where it leads. -/
def Attribute.Free : Attribute → Prop
  | .decision _ | .nonGreedy _ | .endState _ | .startState _ | .loopBack _ | .stopState _ | .leftRecursive _
  | .precedenceDecision _ | .other => True
  | .number _ | .rule _ | .epsilonOnly _ | .owned _ | .withinRule _ | .noTransitions => False

instance : (value : Attribute) → Decidable value.Free
  | .decision _ | .nonGreedy _ | .endState _ | .startState _ | .loopBack _ | .stopState _ | .leftRecursive _
  | .precedenceDecision _ | .other => inferInstanceAs (Decidable True)
  | .number _ | .rule _ | .epsilonOnly _ | .owned _ | .withinRule _ | .noTransitions => inferInstanceAs (Decidable False)

namespace Construction

open NetM

/-- The state, if there is one, is among the first `size`. -/
def Known (size : Nat) (state : Option StateId) : Prop := ∀ id ∈ state, id < size

instance (size : Nat) (state : Option StateId) : Decidable (Known size state) :=
  inferInstanceAs (Decidable (∀ id ∈ state, id < size))

/-- A builder offers the step, on the states that it has made, which are the first `size`. Transitions that are handed
over ready-made may invoke a rule only if `direct`. -/
def Step.Offered (direct : Bool) (size : Nat) : Step → Prop
  | .add .. | .rule _ | .block .. | .lexerAction _ | .build _ => True
  | .decision state | .mode state _ => Known size state
  | .set state value => Known size state ∧ value.Free
  | .draw source target _ => Known size source ∧ Known size target
  | .connect source target kind position =>
      Known size source ∧ Known size target ∧ Known size kind.follow? ∧ kind.Filled ∧
        (kind.isRule = true → direct = true) ∧ position = none
  | .invoke source _ follow _ => Known size source ∧ Known size follow
  | .make .. | .list _ | .clear _ | .defineMode .. | .editTable .. | .verify => False

instance (direct : Bool) (size : Nat) : (step : Step) → Decidable (step.Offered direct size)
  | .add .. | .rule _ | .block .. | .lexerAction _ | .build _ => inferInstanceAs (Decidable True)
  | .decision state | .mode state _ => inferInstanceAs (Decidable (Known size state))
  | .set state value => inferInstanceAs (Decidable (Known size state ∧ value.Free))
  | .draw source target _ => inferInstanceAs (Decidable (Known size source ∧ Known size target))
  | .connect source target kind position =>
      inferInstanceAs (Decidable (Known size source ∧ Known size target ∧ Known size kind.follow? ∧ kind.Filled ∧
        (kind.isRule = true → direct = true) ∧ position = none))
  | .invoke source _ follow _ => inferInstanceAs (Decidable (Known size source ∧ Known size follow))
  | .make .. | .list _ | .clear _ | .defineMode .. | .editTable .. | .verify => inferInstanceAs (Decidable False)

/-- The workspace after a step, whether it fails or not. -/
def Step.after (step : Step) (work : Workspace) : Workspace := (step.run.runOn work).2

/-- The workspace after some steps, the first one first. A step that fails is followed by the next one. -/
def runAll (steps : List Step) (work : Workspace) : Workspace := steps.foldl (fun work step => step.after work) work

/-- The workspace of a builder that has not taken a step yet. -/
def begun (kind : NetworkKind) (maxSymbol : Symbol) (keepRuleSymbols : Bool) : Workspace where
  net := .initial kind maxSymbol keepRuleSymbols

/-- Each of the steps, when it is its turn, is as it should be on the network that it meets. -/
def Throughout (P : Network → Step → Prop) : List Step → Workspace → Prop
  | [], _ => True
  | step :: rest, work => P work.net step ∧ Throughout P rest (step.after work)

instance Throughout.decidable {P : Network → Step → Prop} [∀ net step, Decidable (P net step)] :
    (steps : List Step) → (work : Workspace) → Decidable (Throughout P steps work)
  | [], _ => inferInstanceAs (Decidable True)
  | step :: rest, work =>
      have := Throughout.decidable (P := P) rest (step.after work)
      inferInstanceAs (Decidable (P work.net step ∧ Throughout P rest (step.after work)))

/-- A builder offers each of the steps when it is its turn. -/
def AllOffered (direct : Bool) : List Step → Workspace → Prop
  | [], _ => True
  | step :: rest, work => step.Offered direct work.net.store.size ∧ AllOffered direct rest (step.after work)

instance AllOffered.decidable (direct : Bool) : (steps : List Step) → (work : Workspace) →
    Decidable (AllOffered direct steps work)
  | [], _ => inferInstanceAs (Decidable True)
  | step :: rest, work =>
      have := AllOffered.decidable direct rest (step.after work)
      inferInstanceAs (Decidable (step.Offered direct work.net.store.size ∧ AllOffered direct rest (step.after work)))

theorem throughout_append {P : Network → Step → Prop} {before later : List Step} {work : Workspace} :
    Throughout P (before ++ later) work ↔ Throughout P before work ∧ Throughout P later (runAll before work) := by
  induction before generalizing work with
  | nil => exact (and_iff_right trivial).symm
  | cons step rest inductionHypothesis =>
      show P work.net step ∧ Throughout P (rest ++ later) (step.after work) ↔
        (P work.net step ∧ Throughout P rest (step.after work)) ∧ Throughout P later (runAll rest (step.after work))
      rw [inductionHypothesis, and_assoc]

theorem runAll_append (before later : List Step) (work : Workspace) :
    runAll (before ++ later) work = runAll later (runAll before work) :=
  List.foldl_append

/-! ## Operations -/

section Operations

variable {direct : Bool} {work : Workspace}

theorem changes_grown (net : Network) (kind : StateKind) (rule : Int) : Changes direct net (net.grown kind rule) :=
  .single (.grown kind rule)

theorem State.set_free {value : Attribute} (free : value.Free) :
    ∃ f : Attributes → Attributes, (∀ a, a.leftRecursive ≠ none → (f a).leftRecursive ≠ none) ∧
      ∀ s : State, s.set value = { s with attributes := f s.attributes } := by
  cases value with
  | decision value => exact ⟨fun a => { a with decision := some value }, fun _ present => present, fun _ => rfl⟩
  | nonGreedy value => exact ⟨fun a => { a with nonGreedy := some value }, fun _ present => present, fun _ => rfl⟩
  | endState link => exact ⟨fun a => { a with endState := some link }, fun _ present => present, fun _ => rfl⟩
  | startState link => exact ⟨fun a => { a with startState := some link }, fun _ present => present, fun _ => rfl⟩
  | loopBack link => exact ⟨fun a => { a with loopBack := some link }, fun _ present => present, fun _ => rfl⟩
  | stopState link => exact ⟨fun a => { a with stopState := some link }, fun _ present => present, fun _ => rfl⟩
  | leftRecursive value =>
      exact ⟨fun a => { a with leftRecursive := some value }, fun _ _ => Option.some_ne_none _, fun _ => rfl⟩
  | precedenceDecision value =>
      exact ⟨fun a => { a with precedenceDecision := some value }, fun _ present => present, fun _ => rfl⟩
  | other => exact ⟨id, fun _ present => present, fun _ => rfl⟩
  | number | rule | epsilonOnly | owned | withinRule | noTransitions => exact free.elim

theorem changes_modify_set (net : Network) (id : StateId) {value : Attribute} (free : value.Free) :
    Changes direct net (net.modify id (·.set value)) := by
  obtain ⟨f, keeps, same⟩ := State.set_free free
  simp only [same]
  exact .single (.adorned id f keeps)

theorem changes_withDecision (net : Network) (id : StateId) : Changes direct net (net.withDecision id) :=
  .head (.noted (net.decisions.push (some id)) net.modes net.modeNames net.actions)
    (changes_modify_set _ id trivial)

theorem changes_set (state : Option StateId) {value : Attribute} (free : value.Free) :
    Changes direct work.net ((set state value).runOn work).2.net := by
  cases state with
  | none => exact .refl
  | some id =>
      rw [runOn_set]
      exact changes_modify_set work.net id free

theorem changes_decision (state : Option StateId) :
    Changes direct work.net ((decision state).runOn work).2.net := by
  cases state with
  | none =>
      rw [runOn_decision_none]
      exact .single (.noted (work.net.decisions.push none) work.net.modes work.net.modeNames work.net.actions)
  | some id =>
      rw [runOn_decision]
      exact changes_withDecision work.net id

theorem changes_mode (state : Option StateId) (name : Option String) :
    Changes direct work.net ((mode state name).runOn work).2.net := by
  apply runOn_bind_related Relation.ReflTransGen.trans
  · exact changes_decision state
  · intro _ _
    generalize ((decision state).runOn work).2 = work
    obtain ⟨names, defined⟩ := runOn_defineMode state name work
    rw [defined]
    exact .single (.noted work.net.decisions (work.net.modes.push state) names work.net.actions)

theorem changes_block (rule : Int) (kind : StateKind) :
    Changes direct work.net ((block rule kind).runOn work).2.net := by
  rw [runOn_block]
  have made : Changes direct work.net ((work.net.grown kind rule).grown .blockEnd rule) :=
    (changes_grown work.net kind rule).trans (changes_grown _ .blockEnd rule)
  have opens : ∀ (net : Network) id link, Changes direct net (net.modify id (·.set (.endState link))) :=
    fun net id _ => changes_modify_set net id trivial
  have closes : ∀ (net : Network) id link, Changes direct net (net.modify id (·.set (.startState link))) :=
    fun net id _ => changes_modify_set net id trivial
  have linked : Changes direct work.net (work.net.withEnds rule kind) :=
    made.trans ((opens _ _ _).trans (closes _ _ _))
  exact linked.trans (changes_withDecision _ work.net.store.size)

theorem changes_rule (symbol : Symbol) : Changes direct work.net ((rule symbol).runOn work).2.net := by
  rw [(runOn_rule symbol work).2]
  have links : ∀ (net : Network) id link, Changes direct net (net.modify id (·.set (.stopState link))) :=
    fun net id _ => changes_modify_set net id trivial
  have made : Changes direct work.net work.net.withLimits :=
    (changes_grown work.net .ruleStart work.net.ruleStarts.size).trans ((changes_grown _ .ruleStop _).trans (links _ _ _))
  obtain ⟨starts, stops⟩ := marks_withLimits work.net
  exact made.tail (.registered _ starts stops)

/-! ## Transitions -/

theorem changes_connect
    {source target : Option StateId} {kind : TransitionKind} (sourceKnown : Known work.net.store.size source)
    (targetKnown : Known work.net.store.size target) (followKnown : Known work.net.store.size kind.follow?)
    (filled : kind.Filled) (allowed : kind.isRule = true → direct = true) :
    Changes direct work.net ((connect source target kind none).runOn work).2.net := by
  cases target with
  | none => exact .refl
  | some goal =>
      cases source with
      | none => exact .refl
      | some id =>
          have made : Transition.Made work.net.store.size ⟨goal, kind⟩ := ⟨targetKnown goal rfl, followKnown, filled⟩
          rw [(runOn_connect id goal kind work).2]
          exact .single (.attached (sourceKnown id rfl) made allowed)

theorem Label.ofSet_filled (label : Option Label) : (Label.ofSet label).set.ranges?.isSome = true := by
  cases label with
  | none => rfl
  | some label =>
      unfold Label.ofSet
      by_cases none : label.set.ranges = []
      · simp only [none, if_true]
        rfl
      · simp only [none, if_false]
        unfold RangeSet.ranges at none
        cases present : label.set.ranges? with
        | none => exact absurd (by rw [present]; rfl) none
        | some ranges => rfl

/-- An arrow invokes no rule, and the label of what it draws was filled. -/
theorem Arrow.kind_plain
    {arrow : Arrow} {rule : Except Fault Int} {kind : TransitionKind} (drawn : arrow.kind rule = .ok kind) :
    kind.follow? = none ∧ kind.isRule = false ∧ kind.Filled := by
  cases arrow with
  | epsilon | wildcard | precedence =>
      obtain rfl := Except.ok.inj drawn
      exact ⟨rfl, rfl, (fun _ labelled => nomatch labelled)⟩
  | atom | interval =>
      obtain rfl := Except.ok.inj drawn
      exact ⟨rfl, rfl, fun label labelled => Option.some.inj labelled ▸ rfl⟩
  | anyOf symbols =>
      obtain rfl := Except.ok.inj drawn
      exact ⟨rfl, rfl, fun label labelled => Option.some.inj labelled ▸ Label.ofSet_filled _⟩
  | noneOf symbols =>
      obtain rfl := Except.ok.inj drawn
      exact ⟨rfl, rfl, fun label labelled => Option.some.inj labelled ▸ Label.ofSet_filled _⟩
  | predicate | action =>
      cases rule with
      | error fault => contradiction
      | ok owner =>
          obtain rfl := Except.ok.inj drawn
          exact ⟨rfl, rfl, (fun _ labelled => nomatch labelled)⟩

theorem changes_draw
    {source target : Option StateId} (arrow : Arrow) (sourceKnown : Known work.net.store.size source)
    (targetKnown : Known work.net.store.size target) :
    Changes direct work.net ((draw source target arrow).runOn work).2.net := by
  apply runOn_bind_related Relation.ReflTransGen.trans .refl
  intro net found
  obtain rfl := Except.ok.inj found
  apply runOn_bind_related Relation.ReflTransGen.trans
  · rw [runOn_lift]
  · intro kind found
    rw [runOn_lift] at found ⊢
    obtain ⟨bare, noRule, filled⟩ := Arrow.kind_plain found
    apply changes_connect sourceKnown targetKnown
    · exact fun next follows => nomatch bare.symm.trans follows
    · exact filled
    · exact fun rule => Bool.noConfusion (noRule.symm.trans rule)

/-! ## Invocations -/

theorem entryAt_eq_ok_iff {α : Type} {table : Array α} {index : Int} {entry : α} :
    entryAt table index = .ok entry ↔ ∃ place, position? table.size index = some place ∧ table[place]? = some entry := by
  unfold entryAt
  cases position? table.size index with
  | none => simp
  | some place =>
      cases found : table[place]? with
      | none => simp [found]
      | some present => simp [found]

/-- Under the index of a rule that has a start, its stop is found as well. -/
theorem exists_delimits
    {net : Network} (assembled : Assembled net) {index : Int} {start : StateId}
    (found : net.ruleStart index = .ok start) :
    ∃ rule stop, position? net.ruleStarts.size index = some rule ∧ net.Delimits rule start stop ∧
      net.ruleStop index = .ok stop := by
  unfold Network.ruleStart at found
  cases entry : entryAt net.ruleStarts index with
  | error fault =>
      rw [entry] at found
      contradiction
  | ok present =>
      rw [entry] at found
      obtain ⟨rule, place, startEntry⟩ := entryAt_eq_ok_iff.mp entry
      obtain ⟨known, rfl, _⟩ := assembled.starts rule present startEntry
      obtain rfl := Except.ok.inj found
      have inTable : rule < net.ruleStops.size := by
        rw [assembled.paired]
        exact position?_lt place
      have stopEntry : net.ruleStops[rule]? = some net.ruleStops[rule] := Array.getElem?_eq_getElem inTable
      obtain ⟨stop, present, _⟩ := assembled.stops rule _ stopEntry
      rw [present] at stopEntry
      refine ⟨rule, stop, place, ⟨startEntry, stopEntry⟩, ?_⟩
      unfold Network.ruleStop
      rw [entryAt_eq_ok_iff.mpr ⟨rule, assembled.paired.symm ▸ place, stopEntry⟩]
      rfl

/-- What becomes of the invocation of a rule: its outcome, and the network that it leaves behind. -/
inductive Invocation (net : Network) (source : Option StateId) (index : Int) (follow : Option StateId)
    (precedence : Int) : Except Fault Transition → Network → Prop
  /-- There is no such rule, or nothing to invoke it in. -/
  | refused {fault : Fault} : Invocation net source index follow precedence (.error fault) net
  /-- The invocation was drawn before there turned out to be no place to go on at. -/
  | stranded {id start stop : StateId} {rule : Nat} {fault : Fault} (invoker : source = some id) (nowhere : follow = none)
      (callee : net.Delimits rule start stop) :
      Invocation net source index follow precedence (.error fault)
        (net.modify id (·.addTransition ⟨start, .rule index precedence none⟩ none))
  /-- The rule is invoked and returns. -/
  | returned {id start stop next : StateId} {rule : Nat} (outermost : Int) (invoker : source = some id)
      (goesOn : follow = some next) (place : position? net.ruleStarts.size index = some rule)
      (callee : net.Delimits rule start stop) :
      Invocation net source index follow precedence (.ok ⟨start, .rule index precedence (some next)⟩)
        ((net.modify id (·.addTransition ⟨start, .rule index precedence (some next)⟩ none)).modify stop
          (·.addTransition ⟨next, .epsilon outermost⟩ none))

theorem invocation_runOn
    (assembled : Assembled work.net) (source : Option StateId) (index : Int) (follow : Option StateId)
    (precedence : Int) :
    Invocation work.net source index follow precedence ((invoke source index follow precedence).runOn work).1
      ((invoke source index follow precedence).runOn work).2.net := by
  simp only [invoke, runOn_bind, runOn_network, runOn_lift]
  cases found : work.net.ruleStart index with
  | error fault => exact .refused
  | ok start =>
      obtain ⟨rule, stop, place, delimits, stopFound⟩ := exists_delimits assembled found
      cases source with
      | none => exact .refused
      | some id =>
          obtain ⟨succeeds, attached⟩ := runOn_attach id ⟨start, .rule index precedence follow⟩ work
          simp only
          generalize (attach (some id) ⟨start, .rule index precedence follow⟩ none).runOn work = left
            at succeeds attached ⊢
          obtain ⟨outcome, later⟩ := left
          simp only at succeeds attached
          subst succeeds
          have alike : ∀ other, Alike (work.net.state other) (later.net.state other) := by
            rw [attached]
            exact alike_modify fun s => alike_addTransition s _
          have starts : (work.net.state start).kind = .ruleStart := (assembled.delimits delimits).1.kind
          obtain ⟨flag, flagged⟩ :=
            Option.ne_none_iff_exists'.mp ((alike start).recursion (assembled.recursion start starts))
          have sameStop : later.net.ruleStop index = .ok stop := by
            rw [attached]
            exact stopFound
          simp only [flagged, present, sameStop]
          cases follow with
          | none =>
              show Invocation work.net (some id) index none precedence (.error .noTarget) later.net
              rw [attached]
              exact .stranded rfl rfl delimits
          | some next =>
              generalize (if flag = some true ∧ precedence = 0 then index else -1) = outermost
              obtain ⟨ends, returns⟩ := runOn_connect stop next (.epsilon outermost) later
              generalize (connect (some stop) (some next) (.epsilon outermost) none).runOn later = left at ends returns ⊢
              obtain ⟨outcome, last⟩ := left
              simp only at ends returns
              subst ends
              show Invocation work.net (some id) index (some next) precedence
                (.ok ⟨start, .rule index precedence (some next)⟩) last.net
              rw [returns, attached]
              exact .returned outermost rfl rfl place delimits

theorem changes_invoke
    {source follow : Option StateId} (rule precedence : Int) (assembled : Assembled work.net)
    (sourceKnown : Known work.net.store.size source) (followKnown : Known work.net.store.size follow) :
    Changes direct work.net ((invoke source rule follow precedence).runOn work).2.net := by
  have turned := invocation_runOn assembled source rule follow precedence
  generalize ((invoke source rule follow precedence).runOn work).1 = outcome at turned
  generalize ((invoke source rule follow precedence).runOn work).2.net = later at turned ⊢
  cases turned with
  | refused => exact .refl
  | stranded invoker _ callee => exact .single (.stranded rule precedence (sourceKnown _ invoker) callee)
  | returned outermost invoker goesOn _ callee =>
      exact .single (.invoked rule precedence outermost (sourceKnown _ invoker) (followKnown _ goesOn) callee)

/-! ## Steps -/

theorem net_runOn_build (verified : Bool) (work : Workspace) : ((build verified).runOn work).2.net = work.net := by
  cases verified with
  | false => rfl
  | true =>
      simp only [build, if_true, runOn_bind, runOn_network, runOn_lift]
      cases work.net.verify with
      | error fault => rfl
      | ok => rfl

theorem build_eq_ok_iff (work : Workspace) : ((build true).runOn work).1 = .ok () ↔ work.net.verify = .ok () := by
  simp only [build, if_true, runOn_bind, runOn_network, runOn_lift]
  cases work.net.verify with
  | error fault => exact Iff.rfl
  | ok => exact Iff.rfl

/-- Whatever a builder offers comes down to changes, whether it fails or not. -/
theorem changes_step {step : Step} (assembled : Assembled work.net) (offered : step.Offered direct work.net.store.size) :
    Changes direct work.net (step.after work).net := by
  unfold Step.after
  -- What a step yields is made of what its action yields, and changes nothing.
  have settled : ∀ {α : Type} {action : NetM α} {f : α → Outcome},
      Changes direct work.net (action.runOn work).2.net →
        Changes direct work.net ((action >>= fun a => pure (f a)).runOn work).2.net := by
    intro α action f changes
    rw [runOn_bind_pure]
    exact changes
  cases step with
  | add kind rule => exact settled (by rw [runOn_add]; exact changes_grown work.net kind rule)
  | set state value => exact settled (changes_set state offered.2)
  | rule symbol => exact settled (changes_rule symbol)
  | block rule kind => exact settled (changes_block rule kind)
  | decision state => exact settled (changes_decision state)
  | mode state name => exact settled (changes_mode state name)
  | lexerAction action =>
      exact .single (.noted work.net.decisions work.net.modes work.net.modeNames (work.net.actions.push action))
  | draw source target arrow =>
      exact settled (changes_draw arrow offered.1 offered.2)
  | connect source target kind position =>
      obtain ⟨sourceKnown, targetKnown, followKnown, filled, allowed, rfl⟩ := offered
      exact settled (changes_connect sourceKnown targetKnown followKnown filled allowed)
  | invoke source rule follow precedence =>
      exact settled (changes_invoke rule precedence assembled offered.1 offered.2)
  | build verified => exact settled (by rw [net_runOn_build])
  | make | list | clear | defineMode | editTable | verify => exact offered.elim

theorem changes_runAll
    (assembled : Assembled work.net) {steps : List Step} (offered : AllOffered direct steps work) :
    Changes direct work.net (runAll steps work).net := by
  induction steps generalizing work with
  | nil => exact .refl
  | cons step rest inductionHypothesis =>
      -- A step can only be said to come down to changes on a network that was assembled before it.
      have first : Changes direct work.net (step.after work).net := changes_step assembled offered.1
      exact first.trans (inductionHypothesis (assembled.changes first) offered.2)

/-- What a builder has made is assembled at every time. -/
theorem assembled_runAll
    {kind : NetworkKind} {maxSymbol : Symbol} {keepRuleSymbols : Bool} {steps : List Step}
    (offered : AllOffered direct steps (begun kind maxSymbol keepRuleSymbols)) :
    Assembled (runAll steps (begun kind maxSymbol keepRuleSymbols)).net := by
  have opened : Assembled (begun kind maxSymbol keepRuleSymbols).net := assembled_initial kind maxSymbol keepRuleSymbols
  exact opened.changes (changes_runAll opened offered)

end Operations

/-! ## Finished networks -/

/-- A builder has taken some steps, some of which may have failed, and then finished the network with success. -/
inductive Finished (direct : Bool) : Workspace → Prop
  | intro (kind : NetworkKind) (maxSymbol : Symbol) (keepRuleSymbols : Bool) (steps : List Step)
      (offered : AllOffered direct steps (begun kind maxSymbol keepRuleSymbols))
      (succeeds : ((build true).runOn (runAll steps (begun kind maxSymbol keepRuleSymbols))).1 = .ok ()) :
      Finished direct ((build true).runOn (runAll steps (begun kind maxSymbol keepRuleSymbols))).2

section Finished

variable {direct : Bool} {work : Workspace}

/-- What makes a network finished, as one fact that can be computed. -/
theorem Finished.of_checked
    (kind : NetworkKind) (maxSymbol : Symbol) (keepRuleSymbols : Bool) (steps : List Step)
    (checked : AllOffered direct steps (begun kind maxSymbol keepRuleSymbols) ∧
      ((build true).runOn (runAll steps (begun kind maxSymbol keepRuleSymbols))).1 = .ok ()) :
    Finished direct ((build true).runOn (runAll steps (begun kind maxSymbol keepRuleSymbols))).2 :=
  .intro kind maxSymbol keepRuleSymbols steps checked.1 checked.2

theorem Finished.assembled (finished : Finished direct work) : Assembled work.net := by
  obtain ⟨kind, maxSymbol, keepRuleSymbols, steps, offered, _⟩ := finished
  rw [net_runOn_build]
  exact assembled_runAll offered

theorem Finished.verified (finished : Finished direct work) : work.net.verify = .ok () := by
  obtain ⟨kind, maxSymbol, keepRuleSymbols, steps, _, succeeds⟩ := finished
  rw [net_runOn_build]
  exact (build_eq_ok_iff _).mp succeeds

end Finished

end Construction

end GrammarNet
