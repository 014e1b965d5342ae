import GrammarNet.Proofs.Lookahead.Covering
import GrammarNet.Proofs.Lookahead.Unread
import GrammarNet.Proofs.Search.Reordered

/-!
# Return edges do not show

The transitions of rule stops lead to where the rules return to. No answer that marks the end of the outermost rule reads
them: under a chain of callers a rule returns through the state that invoked it, and without callers it ends. So further
invocations change an answer only where it consults the states that they are made in, and what was kept before stays
right.
-/

namespace GrammarNet

namespace Network

/-- Whatever the table of rule stops has is a rule stop. -/
def TablesStops (net : Network) : Prop :=
  ∀ rule stop, net.ruleStop rule = .ok stop → (net.state stop).isRuleStop = true

/-- The excerpt changes if transitions are put at the end of the changed states: all transitions of such a state do, and
the first one if there was none. -/
def Outdated (net : Network) (changed : StateId → Prop) : Excerpt → Prop
  | .all id => changed id
  | .first id => changed id ∧ (net.state id).transitions = []

/-- From the earlier network to the later one, the changed states got further transitions; the table of rule stops and
what is kept stayed the same. -/
structure Touched (changed : StateId → Prop) (net later : Network) : Prop where
  same : net.SameBut (fun read => changed read.state) later
  grows : ∀ id, (net.state id).transitions <+: (later.state id).transitions
  kept : ∀ id, (later.state id).withinRule = (net.state id).withinRule
  ruleStops : later.ruleStops = net.ruleStops

section Touched

variable {changed : StateId → Prop} {net other last : Network} {id : StateId}

theorem Touched.refl (changed : StateId → Prop) (net : Network) : net.Touched changed net :=
  ⟨(SameGraph.refl net).sameBut _, fun _ => List.prefix_rfl, fun _ => rfl, rfl⟩

theorem Touched.trans (first : net.Touched changed other) (second : other.Touched changed last) :
    net.Touched changed last :=
  ⟨first.same.trans second.same, fun id => (first.grows id).trans (second.grows id),
    fun id => (second.kept id).trans (first.kept id), second.ruleStops.trans first.ruleStops⟩

/-- A change of one state leaves the others alone. -/
theorem sameBut_modify
    {f : State → State} (number : ∀ s, (f s).number = s.number) (rule : ∀ s, (f s).rule = s.rule)
    (kind : ∀ s, (f s).kind = s.kind) : net.SameBut (fun read => read.state = id) (net.modify id f) where
  slots := rfl
  maxSymbol := rfl
  number := net.read_modify id State.number number
  rule := net.read_modify id State.rule rule
  isRuleStop := net.read_modify id State.isRuleStop fun s => congrArg (· == StateKind.ruleStop) (kind s)
  transitions := by
    intro read elsewhere
    have unchanged : (net.modify id f).state read.state = net.state read.state := state_modify_of_ne elsewhere
    cases read with
    | all there => exact congrArg State.transitions unchanged
    | first there => exact congrArg (fun s : State => s.transitions.take 1) unchanged

theorem sameBut_withTransitions (transitions : List Transition) :
    net.SameBut (fun read => read.state = id) (net.withTransitions id transitions) :=
  sameBut_modify (fun _ => rfl) (fun _ => rfl) fun _ => rfl

theorem withinRule_withTransitions (transitions : List Transition) :
    ∀ there, ((net.withTransitions id transitions).state there).withinRule = (net.state there).withinRule :=
  net.read_modify id State.withinRule fun _ => rfl

theorem touched_addTransition (isChanged : changed id) (t : Transition) :
    net.Touched changed (net.modify id (·.addTransition t none)) where
  same := by
    have same : net.SameBut (fun read => read.state = id) (net.modify id (·.addTransition t none)) :=
      sameBut_modify (fun _ => rfl) (fun _ => rfl) fun _ => rfl
    apply same.mono
    rintro read rfl
    exact isChanged
  grows := by
    intro there
    rcases net.state_modify id there (·.addTransition t none) with unchanged | ⟨_, changed⟩
    · rw [unchanged]
    · rw [changed]
      exact List.prefix_append _ [t]
  kept := net.read_modify id State.withinRule fun _ => rfl
  ruleStops := rfl

/-- Only outdated excerpts differ. -/
theorem Touched.sameBut (touched : net.Touched changed other) : net.SameBut (net.Outdated changed) other where
  slots := touched.same.slots
  maxSymbol := touched.same.maxSymbol
  number := touched.same.number
  rule := touched.same.rule
  isRuleStop := touched.same.isRuleStop
  transitions := by
    intro read current
    cases read with
    | all id => exact touched.same.transitions (.all id) current
    | first id =>
        by_cases isChanged : changed id
        · obtain ⟨more, grown⟩ := touched.grows id
          cases had : (net.state id).transitions with
          | nil => exact absurd ⟨isChanged, had⟩ current
          | cons t rest =>
              have first : (other.state id).transitions.take 1 = (net.state id).transitions.take 1 := by
                rw [← grown, had]
                rfl
              exact first
        · exact touched.same.transitions (.first id) isChanged

end Touched

end Network

namespace Construction

open NetM

/-! ## Assembled networks -/

section Assembled

variable {net : Network}

theorem Assembled.unmistaken (assembled : Assembled net) : net.Unmistaken := by
  intro id occupant found
  by_cases made : id < net.store.size
  · rw [assembled.slot?_number (assembled.mem_listed_iff.mpr made)] at found
    exact Option.some.inj found
  · rw [Network.state_of_size_le (Nat.not_lt.mp made)] at found
    exact nomatch found

theorem Assembled.tablesStops (assembled : Assembled net) : net.TablesStops := by
  intro rule stop found
  unfold Network.ruleStop at found
  cases entry : entryAt net.ruleStops rule with
  | error fault =>
      rw [entry] at found
      contradiction
  | ok present =>
      rw [entry] at found
      obtain ⟨place, _, inTable⟩ := entryAt_eq_ok_iff.mp entry
      obtain ⟨known, rfl, marks⟩ := assembled.stops place present inTable
      obtain rfl := Except.ok.inj found
      exact beq_iff_eq.mpr marks.kind

end Assembled

/-! ## Further invocations -/

/-- The step invokes a rule in one of the states. -/
def Step.InvokesIn (invokers : StateId → Prop) : Step → Prop
  | .invoke source _ _ _ => ∀ id ∈ source, invokers id
  | _ => False

section Invocations

variable {changed : StateId → Prop} {work : Workspace}

theorem touched_attach
    (work : Workspace) {source : Option StateId} (isChanged : ∀ id ∈ source, changed id) (t : Transition) :
    work.net.Touched changed ((attach source t none).runOn work).2.net := by
  cases source with
  | none => exact .refl changed work.net
  | some id =>
      rw [(runOn_attach id t work).2]
      exact Network.touched_addTransition (isChanged id rfl) t

theorem touched_connect
    (work : Workspace) {id : StateId} (isChanged : changed id) (target : Option StateId) (kind : TransitionKind) :
    work.net.Touched changed ((connect (some id) target kind none).runOn work).2.net := by
  cases target with
  | none => exact .refl changed work.net
  | some goal =>
      rw [(runOn_connect id goal kind work).2]
      exact Network.touched_addTransition isChanged _

/-- An invocation changes the transitions of the state that it is made in, and of a rule stop. -/
theorem touched_invoke
    {source : Option StateId} (isChanged : ∀ id ∈ source, changed id)
    (stops : ∀ rule stop, work.net.ruleStop rule = .ok stop → changed stop) (rule : Int) (follow : Option StateId)
    (precedence : Int) : work.net.Touched changed ((invoke source rule follow precedence).runOn work).2.net := by
  simp only [invoke, runOn_bind, runOn_network, runOn_lift]
  cases work.net.ruleStart rule with
  | error fault => exact .refl changed work.net
  | ok start =>
      have attached := touched_attach work isChanged ⟨start, .rule rule precedence follow⟩
      simp only
      generalize (attach source ⟨start, .rule rule precedence follow⟩ none).runOn work = left at attached ⊢
      obtain ⟨outcome, later⟩ := left
      cases outcome with
      | error fault => exact attached
      | ok =>
          simp only
          cases present (later.net.state start).attributes.leftRecursive with
          | error fault => exact attached
          | ok flag =>
              simp only
              cases returns : later.net.ruleStop rule with
              | error fault => exact attached
              | ok stop =>
                  have sameStop : work.net.ruleStop rule = .ok stop := by
                    rw [← returns]
                    unfold Network.ruleStop
                    rw [attached.ruleStops]
                  generalize (if flag = some true ∧ precedence = 0 then rule else -1) = outermost
                  have connected := touched_connect later (stops rule stop sameStop) follow (.epsilon outermost)
                  simp only
                  generalize (connect (some stop) follow (.epsilon outermost) none).runOn later = left at connected ⊢
                  obtain ⟨outcome, last⟩ := left
                  cases outcome with
                  | error fault => exact attached.trans connected
                  | ok => exact attached.trans connected

theorem touched_runAll
    {invokers : StateId → Prop} {steps : List Step} (invocations : ∀ step ∈ steps, step.InvokesIn invokers)
    (isChanged : ∀ id, invokers id → changed id) (stops : ∀ rule stop, work.net.ruleStop rule = .ok stop → changed stop) :
    work.net.Touched changed (runAll steps work).net := by
  induction steps generalizing work with
  | nil => exact .refl changed work.net
  | cons step rest inductionHypothesis =>
      have here := invocations step List.mem_cons_self
      have first : work.net.Touched changed (step.after work).net := by
        unfold Step.after
        cases step with
        | invoke source rule follow precedence =>
            rw [Step.run, runOn_bind_pure]
            exact touched_invoke (fun id member => isChanged id (here id member)) stops rule follow precedence
        | make | add | list | clear | set | rule | block | decision | mode | defineMode | lexerAction | draw | connect
        | editTable | verify | build => exact here.elim
      apply first.trans
      apply inductionHypothesis
      · exact fun other member => invocations other (List.mem_cons_of_mem step member)
      · intro rule stop found
        apply stops rule stop
        rw [← found]
        unfold Network.ruleStop
        rw [first.ruleStops]

end Invocations

end Construction

namespace Lookahead

open Construction

/-! ## Answers -/

section Answers

variable {work other : Workspace}

/-- A workspace that keeps what searches find reflects its own network, whatever is hidden. -/
theorem reflects_self (truthful : work.net.Truthful) (hidden : Excerpt → Prop) : Reflects hidden work.net work where
  same := (Network.SameGraph.refl work.net).sameBut hidden
  known := fun id known kept _ => truthful id known kept

/-- What keeps no more than a workspace that keeps what searches find reflects its network as well. -/
theorem reflects_of_kept
    {hidden : Excerpt → Prop} (truthful : work.net.Truthful) (same : work.net.SameBut hidden other.net)
    (kept : ∀ id known, (other.net.state id).withinRule = some known → (work.net.state id).withinRule = some known) :
    Reflects hidden work.net other where
  same := same
  known := fun id known found _ => truthful id known (kept id known found)

/-- What is kept stays right where only transitions change that were not read for it. -/
theorem kept_of_sameBut
    {hidden : Excerpt → Prop} (truthful : work.net.Truthful) (same : work.net.SameBut hidden other.net) {id : StateId}
    {known : RangeSet} (kept : (work.net.state id).withinRule = some known)
    (seen : ∀ read, work.net.Consults {} (some id) .unknown read → ¬ hidden read) :
    ∃ found, other.net.lookahead {} (some id) .unknown = .ok found ∧ known = found.freeze := by
  obtain ⟨found, ok, frozen⟩ := truthful id known kept
  exact ⟨found, (same.lookahead seen).trans ok, frozen⟩

/-- An excerpt of no rule stop is outdated by invocations only in the states in which they are made. -/
theorem not_outdated
    {net : Network} {invokers : StateId → Prop} {read : Excerpt} (goesOn : ¬ (net.state read.state).isRuleStop = true)
    (current : ¬ net.Outdated invokers read) :
    ¬ net.Outdated (fun id => (net.state id).isRuleStop = true ∨ invokers id) read := by
  cases read with
  | all id => exact not_or.mpr ⟨goesOn, current⟩
  | first id => exact fun outdated => current ⟨outdated.1.resolve_left goesOn, outdated.2⟩

/-- No answer that marks the end depends on the transitions of rule stops, as long as its links name none of these; and
what is kept stays right when they change. Hence if rules are invoked further, an answer changes only if it consults a
state in which that is done, beyond a first transition that was there before; and what is kept stays, and is right unless
such a state was consulted for it. -/
theorem answers_independent_of_return_edges
    (work : Workspace) (unmistaken : work.net.Unmistaken) (truthful : work.net.Truthful) :
    (∀ other : Workspace, work.net.SameBut (fun read => (work.net.state read.state).isRuleStop = true) other.net →
      (∀ id known, (other.net.state id).withinRule = some known → (work.net.state id).withinRule = some known) →
        other.net.Truthful ∧
        ∀ query : Query, query.MarksEnd → (∀ link ∈ query.links, ¬ work.net.NamesStop link) →
          (query.ask.runOn other).1 = (query.ask.runOn work).1) ∧
    ∀ (invokers : StateId → Prop) (steps : List Step), (∀ step ∈ steps, step.InvokesIn invokers) →
      work.net.TablesStops →
        (∀ query : Query, query.MarksEnd → (∀ link ∈ query.links, ¬ work.net.NamesStop link) →
          (∀ read, query.Consults work.net read → ¬ work.net.Outdated invokers read) →
            (query.ask.runOn (runAll steps work)).1 = (query.ask.runOn work).1) ∧
        ∀ id known, (work.net.state id).withinRule = some known →
          ((runAll steps work).net.state id).withinRule = some known ∧
          ((∀ read, work.net.Consults {} (some id) .unknown read → ¬ work.net.Outdated invokers read) →
            ∃ found, (runAll steps work).net.lookahead {} (some id) .unknown = .ok found ∧ known = found.freeze) := by
  have unread : ∀ {state read}, work.net.Consults {} state .unknown read →
      ¬ (work.net.state read.state).isRuleStop = true := Network.not_stops_of_consults_within unmistaken
  refine ⟨fun other same kept => ⟨fun id known found => ?_, fun query marks proper => ?_⟩,
    fun invokers steps invocations stops => ?_⟩
  · exact kept_of_sameBut truthful same (kept id known found) fun read => unread
  · apply (reflects_self truthful _).answer_eq (reflects_of_kept truthful same kept) marks
    exact fun read => Query.not_stops_of_consults unmistaken proper
  · have touched : work.net.Touched (fun id => (work.net.state id).isRuleStop = true ∨ invokers id) (runAll steps work).net :=
      touched_runAll invocations (fun id => Or.inr) fun rule stop found => Or.inl (stops rule stop found)
    have same := touched.sameBut
    refine ⟨fun query marks proper apart => ?_, fun id known found => ⟨(touched.kept id).trans found, fun apart => ?_⟩⟩
    · have also := reflects_of_kept truthful same fun id known found => (touched.kept id).symm.trans found
      apply (reflects_self truthful _).answer_eq also marks
      exact fun read consults =>
        not_outdated (Query.not_stops_of_consults unmistaken proper consults) (apart read consults)
    · apply kept_of_sameBut truthful same found
      exact fun read consults => not_outdated (unread consults) (apart read consults)

/-- A state from which paths only consume leads a search to no other. -/
theorem eq_of_consults
    {net : Network} {mode : SearchMode} {id : StateId} {read : Excerpt}
    (consumes : ∀ t ∈ (net.state id).transitions, t.isEpsilon = false) (consults : net.Consults mode (some id) [] read) :
    read = .all id := by
  have stays : ∀ {next : Config}, ¬ Search.Calls net mode ⟨some id, [], []⟩ next := by
    rintro next ⟨_, same, leads⟩
    obtain rfl := Option.some.inj same
    cases leads with
    | returned stack => exact nomatch stack
    | @followed t _ _ member followed =>
        have consumed := consumes t member
        obtain ⟨target, kind⟩ := t
        cases followed with
        | passed passes => exact Bool.noConfusion (consumed.symm.trans passes.1)
        | entered invokes _ => cases kind <;> first | exact Bool.noConfusion consumed | exact Bool.noConfusion invokes
  obtain ⟨reached, pending, current, _, reading⟩ := consults
  have path := reached.calling (by rw [pending]; exact List.mem_cons_self)
  rcases path.cases_head with same | ⟨next, calls, _⟩
  · subst same
    obtain rfl := Option.some.inj current
    cases reading with
    | onward _ => rfl
    | back stack => exact nomatch stack
  · exact absurd calls stays

/-- Without the way back from `e`, the same is expected under a caller as with it; and one more invocation of `e`, where
`s` goes on, does not show where `e` goes on. -/
theorem answers_independent_of_return_edges_option :
    optionNetwork.net.Unmistaken ∧ optionNetwork.net.Truthful ∧ optionNetwork.net.TablesStops ∧
      ((Query.expected 9 (.chain [4, -1])).ask.runOn ⟨optionNetwork.net.withTransitions 3 [], []⟩).1 =
        ((Query.expected 9 (.chain [4, -1])).ask.runOn optionNetwork).1 ∧
      ((Query.withinRule (some 9)).ask.runOn (runAll [.invoke (some 5) 1 (some 1) 0] optionNetwork)).1 =
        ((Query.withinRule (some 9)).ask.runOn optionNetwork).1 := by
  have assembled := finished_optionNetwork.assembled
  have truthful := finished_optionNetwork.truthful
  have independent := answers_independent_of_return_edges optionNetwork assembled.unmistaken truthful
  obtain ⟨stops, proper, consumes⟩ :
      (optionNetwork.net.state 3).isRuleStop = true ∧
        (∀ link ∈ Query.links (.expected 9 (.chain [4, -1])), ¬ optionNetwork.net.NamesStop link) ∧
          ∀ t ∈ (optionNetwork.net.state 9).transitions, t.isEpsilon = false := by
    decide +kernel
  refine ⟨assembled.unmistaken, truthful, assembled.tablesStops, ?_, ?_⟩
  · have same : optionNetwork.net.SameBut (fun read => (optionNetwork.net.state read.state).isRuleStop = true)
        (optionNetwork.net.withTransitions 3 []) := by
      apply (Network.sameBut_withTransitions []).mono
      intro read here
      rw [here]
      exact stops
    apply (independent.1 ⟨optionNetwork.net.withTransitions 3 [], []⟩ same _).2
    · trivial
    · exact proper
    · exact fun id known found => (Network.withinRule_withTransitions [] id).symm.trans found
  · apply (independent.2 (· = 5) [.invoke (some 5) 1 (some 1) 0] _ assembled.tablesStops).1
    · trivial
    · exact fun link member => absurd member List.not_mem_nil
    · intro read consults same
      obtain ⟨consults⟩ := consults
      obtain rfl := eq_of_consults consumes consults
      exact absurd same (by decide : ¬ 9 = 5)
    · intro step member
      obtain rfl := List.mem_singleton.mp member
      exact fun id invoker => (Option.some.inj invoker).symm

end Answers

end Lookahead

end GrammarNet
