import GrammarNet.Proofs.Search.Growth

/-!
# What a search does not read

A search reads all transitions of the states that it goes on from, and the first transition of those through which a rule
returns. Networks that differ in other transitions are searched in the same way, task by task. Where the end of the
outermost rule is marked, the transitions of a rule stop are never read.
-/

namespace GrammarNet

/-! ## Reading -/

/-- What is read of a state at once: all its transitions, or the first of them. -/
inductive Excerpt where
  | all (id : StateId)
  | first (id : StateId)

namespace Excerpt

/-- The state of which something is read. -/
def state : Excerpt → StateId
  | all id | first id => id

/-- The transitions that are read in a network. -/
def transitions (net : Network) : Excerpt → List Transition
  | all id => (net.state id).transitions
  | first id => (net.state id).transitions.take 1

end Excerpt

namespace Search

/-- A visit reads the transitions of the state that is visited, where paths go on from it. Where a rule returns, it reads
the first transition of the state in which the rule was invoked. -/
inductive Reading (net : Network) (mode : SearchMode) (id : StateId) (config : Config) : Excerpt → Prop
  | onward (passable : net.Passable mode ⟨id, config.stack⟩) : Reading net mode id config (.all id)
  | back {link : Int} {outer : CallStack} {invoker : StateId} (stack : config.stack = link :: outer)
      (invoked : 0 ≤ link) (stops : (net.state id).isRuleStop = true) (found : net.slot? link = some invoker) :
      Reading net mode id config (.first invoker)

end Search

namespace Network

/-- A search from the state under the chain of callers comes to a visit that reads the excerpt. -/
inductive Consults (net : Network) (mode : SearchMode) (state : Option StateId) (stack : CallStack) : Excerpt → Prop
  | intro {search : Search} {config : Config} {rest : List Task} {id : StateId} {read : Excerpt}
      (reached : Search.Reached net mode (Search.start state stack) search)
      (pending : search.pending = .visit config :: rest) (current : config.state = some id)
      (fresh : ((net.state id).number, config.stack) ∉ search.visited) (reading : Search.Reading net mode id config read) :
      Consults net mode state stack read

/-- The networks differ at most in transitions of which a hidden excerpt is taken, and in what no search looks at. -/
structure SameBut (hidden : Excerpt → Prop) (net other : Network) : Prop where
  slots : other.slots = net.slots
  maxSymbol : other.maxSymbol = net.maxSymbol
  number : ∀ id, (other.state id).number = (net.state id).number
  rule : ∀ id, (other.state id).rule = (net.state id).rule
  isRuleStop : ∀ id, (other.state id).isRuleStop = (net.state id).isRuleStop
  transitions : ∀ read, ¬ hidden read → read.transitions other = read.transitions net

namespace SameBut

section SameBut

variable {hidden : Excerpt → Prop} {net other last : Network} {mode : SearchMode} {id : StateId} {config : Config}

theorem trans (first : net.SameBut hidden other) (second : other.SameBut hidden last) : net.SameBut hidden last :=
  ⟨second.slots.trans first.slots, second.maxSymbol.trans first.maxSymbol,
    fun id => (second.number id).trans (first.number id), fun id => (second.rule id).trans (first.rule id),
    fun id => (second.isRuleStop id).trans (first.isRuleStop id),
    fun read seen => (second.transitions read seen).trans (first.transitions read seen)⟩

theorem mono {more : Excerpt → Prop} (same : net.SameBut hidden other) (implies : ∀ read, hidden read → more read) :
    net.SameBut more other where
  slots := same.slots
  maxSymbol := same.maxSymbol
  number := same.number
  rule := same.rule
  isRuleStop := same.isRuleStop
  transitions := fun read seen => same.transitions read (mt (implies read) seen)

theorem slot? (same : net.SameBut hidden other) (number : Int) : other.slot? number = net.slot? number := by
  unfold Network.slot?
  rw [same.slots]

/-- A link leads to the same place if the first transition of the state that it names is not hidden. -/
theorem followState
    (same : net.SameBut hidden other) {link : Int}
    (seen : ∀ invoker, net.slot? link = some invoker → ¬ hidden (.first invoker)) :
    other.followState link = net.followState link := by
  unfold Network.followState
  rw [same.slot?]
  cases found : net.slot? link with
  | none => rfl
  | some invoker =>
      have sameFirst : (other.state invoker).transitions.take 1 = (net.state invoker).transitions.take 1 :=
        same.transitions (.first invoker) (seen invoker found)
      have sameHead := congrArg List.head? sameFirst
      simp only [List.head?_take, one_ne_zero, if_false] at sameHead
      simp only
      rw [sameHead]

/-! ## One visit -/

theorem follow (same : net.SameBut hidden other) (mode : SearchMode) (id : StateId) (config : Config) :
    Search.follow other mode (other.state id) config = Search.follow net mode (net.state id) config := by
  funext t
  unfold Search.follow
  rw [same.number, same.rule]

theorem leaves_iff (same : net.SameBut hidden other) : other.Leaves mode id ↔ net.Leaves mode id := by
  unfold Leaves
  rw [same.isRuleStop]

theorem halts_iff (same : net.SameBut hidden other) {p : Point} {mark : Symbol} :
    other.Halts mode p mark ↔ net.Halts mode p mark := by
  obtain ⟨id, stack⟩ := p
  cases stack with
  | nil => exact and_congr_left' same.leaves_iff
  | cons link outer => exact and_congr_left' same.leaves_iff

theorem passable_iff (same : net.SameBut hidden other) {p : Point} : other.Passable mode p ↔ net.Passable mode p := by
  obtain ⟨id, stack⟩ := p
  cases stack with
  | nil => exact not_congr same.leaves_iff
  | cons link outer =>
      unfold Passable
      simp only [same.isRuleStop, same.leaves_iff]

/-- A visit leads to the same tasks if it reads nothing hidden. -/
theorem expand
    (same : net.SameBut hidden other) (seen : ∀ read, Search.Reading net mode id config read → ¬ hidden read) :
    Search.expand other mode id config = Search.expand net mode id config := by
  rcases Search.halts_or_returns_or_passable net mode ⟨id, config.stack⟩ with
    ⟨mark, halts⟩ | ⟨link, outer, stack, invoked, stops⟩ | passable
  · rw [Search.expand_of_halts halts, Search.expand_of_halts (same.halts_iff.mpr halts)]
  · simp only at stack stops
    have returned : other.followState link = net.followState link :=
      same.followState fun invoker found => seen _ (.back stack invoked stops found)
    rw [Search.expand_of_returns stack invoked stops,
      Search.expand_of_returns stack invoked ((same.isRuleStop id).trans stops), returned, same.rule]
  · have sameTransitions : (other.state id).transitions = (net.state id).transitions :=
      same.transitions (.all id) (seen _ (.onward passable))
    rw [Search.expand_of_passable passable, Search.expand_of_passable (same.passable_iff.mpr passable), same.follow,
      sameTransitions]

/-! ## Searches -/

/-- A task is done in the same way if it is no visit, or one that reads nothing hidden. -/
theorem perform
    (same : net.SameBut hidden other) {search : Search} {task : Task} {rest : List Task}
    (seen : ∀ config id read, task = .visit config → config.state = some id →
      ((net.state id).number, config.stack) ∉ search.visited → Search.Reading net mode id config read → ¬ hidden read) :
    Search.perform other mode search task rest = Search.perform net mode search task rest := by
  cases task with
  | report x => rfl
  | consume kind =>
      unfold Search.perform
      rw [same.maxSymbol]
  | visit config =>
      cases current : config.state with
      | none => simp only [Search.perform, current]
      | some id =>
          by_cases marked : ((net.state id).number, config.stack) ∈ search.visited
          · have alsoMarked : ((other.state id).number, config.stack) ∈ search.visited := same.number id ▸ marked
            rw [Search.perform_visit_of_mem current marked, Search.perform_visit_of_mem current alsoMarked]
          · have expanded := same.expand fun read => seen config id read rfl current marked
            simp only [Search.perform, current, same.number, expanded]

theorem ends
    (same : net.SameBut hidden other) {first search : Search} {outcome : Except Fault RangeSet} {steps : Nat}
    (seen : ∀ {search config rest id read}, Search.Reached net mode first search → search.pending = .visit config :: rest →
      config.state = some id → ((net.state id).number, config.stack) ∉ search.visited →
        Search.Reading net mode id config read → ¬ hidden read)
    (reached : Search.Reached net mode first search) (ends : Search.Ends net mode search outcome steps) :
    Search.Ends other mode search outcome steps := by
  induction ends with
  | done idle => exact .done idle
  | @failed search task rest fault pending performed =>
      refine .failed pending ?_
      rw [same.perform, performed]
      rintro config id read rfl current fresh reading
      exact seen reached pending current fresh reading
  | @step search next task rest outcome steps pending performed _ inductionHypothesis =>
      refine .step pending ?_ (inductionHypothesis (.step reached pending performed))
      rw [same.perform, performed]
      rintro config id read rfl current fresh reading
      exact seen reached pending current fresh reading

/-- A search that consults nothing hidden has the same outcome in both networks. -/
theorem lookahead
    (same : net.SameBut hidden other) {state : Option StateId} {stack : CallStack}
    (seen : ∀ read, net.Consults mode state stack read → ¬ hidden read) :
    other.lookahead mode state stack = net.lookahead mode state stack := by
  obtain ⟨steps, ended, _⟩ := Search.ends_lookahead net mode state stack
  have alsoEnded := same.ends (fun reached pending current fresh reading =>
    seen _ (.intro reached pending current fresh reading)) .start ended
  exact alsoEnded.lookahead_eq

end SameBut

end SameBut

end Network

/-! ## Rule stops -/

theorem CallStack.mem_links_cons_iff {link other : Int} {outer : CallStack} :
    other ∈ CallStack.links (link :: outer) ↔ 0 ≤ link ∧ (other = link ∨ other ∈ outer.links) := by
  unfold CallStack.links
  by_cases invoked : 0 ≤ link
  · simp [invoked]
  · simp [invoked]

namespace Network

section Stops

variable {net : Network} {mode : SearchMode} {state : Option StateId} {stack : CallStack} {link : Int}

/-- No state but the one in a slot has the number of the slot. -/
def Unmistaken (net : Network) : Prop :=
  ∀ id occupant, net.slot? (net.state id).number = some occupant → id = occupant

/-- The link names a rule stop. -/
def NamesStop (net : Network) (link : Int) : Prop :=
  ∃ id, net.slot? link = some id ∧ (net.state id).isRuleStop = true

instance (link : Int) : Decidable (net.NamesStop link) :=
  inferInstanceAs (Decidable (∃ id ∈ net.slot? link, (net.state id).isRuleStop = true))

/-- Where the end is marked, paths do not go on from a rule stop. -/
theorem goesOn_of_passable {p : Point} (marks : mode.marksEnd = true) (passable : net.Passable mode p) :
    (net.state p.state).isRuleStop = false := by
  apply Bool.eq_false_iff.mpr
  intro stops
  obtain ⟨id, stack⟩ := p
  cases stack with
  | nil => exact passable (Or.inr stops)
  | cons link outer =>
      by_cases invoked : 0 ≤ link
      · exact not_passable_invoked invoked stops passable
      · exact (passable_root_iff (Int.not_le.mp invoked)).mp passable ⟨Or.inr stops, marks⟩

/-- Where the end is marked, no link by which a path returns comes to name a rule stop. -/
theorem not_namesStop_of_calling
    (unmistaken : net.Unmistaken) (marks : mode.marksEnd = true) {origin config : Config}
    (path : Search.Calling net mode origin config) (proper : ∀ link ∈ CallStack.links origin.stack, ¬ net.NamesStop link) :
    ∀ link ∈ CallStack.links config.stack, ¬ net.NamesStop link := by
  induction path with
  | refl => exact proper
  | tail _ calls inductionHypothesis =>
      obtain ⟨id, _, leads⟩ := calls
      cases leads with
      | returned chain invoked _ _ =>
          intro link member
          apply inductionHypothesis link
          rw [chain]
          exact CallStack.mem_links_cons_iff.mpr ⟨invoked, Or.inr member⟩
      | followed passable _ followed =>
          cases followed with
          | passed _ => exact inductionHypothesis
          | entered _ _ =>
              intro link member
              rcases (CallStack.mem_links_cons_iff.mp member).2 with rfl | earlier
              · rintro ⟨occupant, found, stops⟩
                obtain rfl := unmistaken id occupant found
                have goesOn := goesOn_of_passable marks passable
                exact Bool.noConfusion (stops.symm.trans goesOn)
              · exact inductionHypothesis link earlier

/-- Where the end is marked, a search under links that name no rule stop consults none. -/
theorem not_stops_of_consults
    (unmistaken : net.Unmistaken) (marks : mode.marksEnd = true) (proper : ∀ link ∈ stack.links, ¬ net.NamesStop link)
    {read : Excerpt} (consults : net.Consults mode state stack read) : ¬ (net.state read.state).isRuleStop = true := by
  obtain ⟨reached, pending, current, _, reading⟩ := consults
  cases reading with
  | onward passable => exact Bool.eq_false_iff.mp (goesOn_of_passable marks passable)
  | @back link outer invoker chain invoked stops found =>
      have path := reached.calling (by rw [pending]; exact List.mem_cons_self)
      have unnamed := not_namesStop_of_calling unmistaken marks path proper
      intro alsoStops
      apply unnamed link _ ⟨invoker, found, alsoStops⟩
      rw [chain]
      exact CallStack.mem_links_cons_iff.mpr ⟨invoked, Or.inl rfl⟩

/-- A search within a rule consults no rule stop. -/
theorem not_stops_of_consults_within
    (unmistaken : net.Unmistaken) {read : Excerpt} (consults : net.Consults {} state .unknown read) :
    ¬ (net.state read.state).isRuleStop = true :=
  not_stops_of_consults unmistaken rfl (fun _ member => absurd member List.not_mem_nil) consults

end Stops

end Network

end GrammarNet
