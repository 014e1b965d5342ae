import GrammarNet.Proofs.Search.Ends

/-!
# Searches above a root

No search looks beyond the first root link of its chain: a path that leaves the outermost rule ends there, or goes on
along transitions with the chain as it is. So what lies beyond the root may be replaced by anything else that begins with
a root, whatever the network.
-/

namespace GrammarNet

/-- The configuration on top of further links. -/
def Config.onto (config : Config) (base : CallStack) : Config := { config with stack := config.stack ++ base }

/-- The task on top of further links. -/
def Task.onto (base : CallStack) : Task → Task
  | .visit config => .visit (config.onto base)
  | .report x => .report x
  | .consume kind => .consume kind

namespace Search

variable {net : Network} {mode : SearchMode} {base other : CallStack}

theorem follow_onto (base : CallStack) (s : State) (config : Config) (t : Transition) :
    follow net mode s (config.onto base) t = (follow net mode s config t).map (Task.onto base) := by
  obtain ⟨target, kind⟩ := t
  cases kind with
  | rule index precedence next =>
      by_cases entered : (net.state target).rule ∈ config.entered
      · simp only [follow, Config.onto, entered, if_true, List.map_nil]
      · simp only [follow, Config.onto, entered, if_false]
        rfl
  | abstractPredicate | predicate | precedence =>
      unfold follow
      simp only
      split <;> rfl
  | epsilon | action | plain | atom | range | set | notSet | wildcard => rfl

theorem flatMap_follow_onto (base : CallStack) (s : State) (config : Config) (transitions : List Transition) :
    transitions.flatMap (follow net mode s (config.onto base)) =
      (transitions.flatMap (follow net mode s config)).map (Task.onto base) := by
  rw [List.map_flatMap]
  exact congrArg transitions.flatMap (funext (follow_onto base s config))

/-- What a configuration on top of a root leads to does not depend on the root, nor on what lies beyond it. -/
theorem exists_expand_onto (net : Network) (mode : SearchMode) (id : StateId) (config : Config) :
    ∃ outcome : Except Fault (List Task), ∀ base : CallStack, base.atRoot = true →
      expand net mode id (config.onto base) = outcome.map (List.map (Task.onto base)) := by
  obtain ⟨state, stack, entered⟩ := config
  have onward := fun base =>
    @flatMap_follow_onto net mode base (net.state id) ⟨state, stack, entered⟩ (net.state id).transitions
  cases stack with
  | nil =>
      by_cases ends : (mode.stop = some id ∨ (net.state id).isRuleStop = true) ∧ mode.marksEnd = true
      · refine ⟨.ok [.report .endOfInput], fun base rooted => ?_⟩
        cases base with
        | nil => exact nomatch rooted
        | cons link outer => exact if_pos ⟨ends.1, of_decide_eq_true rooted, ends.2⟩
      · refine ⟨.ok ((net.state id).transitions.flatMap (follow net mode (net.state id) ⟨state, [], entered⟩)),
          fun base rooted => ?_⟩
        cases base with
        | nil => exact nomatch rooted
        | cons link outer =>
            have negative : link < 0 := of_decide_eq_true rooted
            have uninvoked : ¬ 0 ≤ link := Int.not_le.mpr negative
            unfold expand
            simp only [Config.onto, List.nil_append, negative, uninvoked, true_and, and_false, if_false, ends]
            exact congrArg Except.ok (onward (link :: outer))
  | cons link outer =>
      refine ⟨expand net mode id ⟨state, link :: outer, entered⟩, fun base _ => ?_⟩
      unfold expand
      simp only [Config.onto, List.cons_append]
      split
      · rfl
      · split
        · cases net.followState link <;> rfl
        · exact congrArg Except.ok (onward base)

/-! ## Searches on top of two chains -/

/-- The searches have the same tasks and the same marks, one on top of `base` and the other on top of `other`, and found
the same. -/
structure Rebased (base other : CallStack) (first second : Search) : Prop where
  pending : ∃ tasks : List Task,
    first.pending = tasks.map (Task.onto base) ∧ second.pending = tasks.map (Task.onto other)
  visited : ∀ number stack, (number, stack ++ base) ∈ first.visited ↔ (number, stack ++ other) ∈ second.visited
  found : second.found = first.found

theorem rebased_start (base other : CallStack) (state : Option StateId) (links : List Int) :
    Rebased base other (start state (links ++ base)) (start state (links ++ other)) where
  pending := ⟨[.visit ⟨state, links, []⟩], rfl, rfl⟩
  visited := fun _ _ => iff_of_false Std.HashSet.not_mem_empty Std.HashSet.not_mem_empty
  found := rfl

/-- Both outcomes are the same fault, or searches on top of the two chains. -/
def RebasedAlike (base other : CallStack) : Except Fault Search → Except Fault Search → Prop
  | .ok first, .ok second => Rebased base other first second
  | .error fault, .error cause => cause = fault
  | _, _ => False

section Rebased

variable {first second next : Search} {performed : Except Fault Search} {fault : Fault}
  {outcome : Except Fault RangeSet} {steps : Nat}

theorem RebasedAlike.exists_of_ok (alike : RebasedAlike base other (.ok next) performed) :
    ∃ alsoNext, performed = .ok alsoNext ∧ Rebased base other next alsoNext := by
  cases performed with
  | ok alsoNext => exact ⟨alsoNext, rfl, alike⟩
  | error cause => exact alike.elim

theorem RebasedAlike.eq_of_error (alike : RebasedAlike base other (.error fault) performed) :
    performed = .error fault := by
  cases performed with
  | ok alsoNext => exact alike.elim
  | error cause => exact congrArg Except.error alike

theorem Rebased.expanded
    (rebased : Rebased base other first second) (number : Int) (stack : CallStack) (tasks rest : List Task) :
    Rebased base other
      { first with
        pending := tasks.map (Task.onto base) ++ rest.map (Task.onto base)
        visited := first.visited.insert (number, stack ++ base) }
      { second with
        pending := tasks.map (Task.onto other) ++ rest.map (Task.onto other)
        visited := second.visited.insert (number, stack ++ other) } where
  pending := ⟨tasks ++ rest, List.map_append.symm, List.map_append.symm⟩
  visited := by
    intro visitedNumber visitedStack
    have same := rebased.visited visitedNumber visitedStack
    simp only [Std.HashSet.mem_insert, beq_iff_eq, Prod.mk.injEq, same, List.append_cancel_right_eq]
  found := rebased.found

/-- A task does the same on top of both chains. -/
theorem Rebased.perform
    (rebased : Rebased base other first second) (rooted : base.atRoot = true) (alsoRooted : other.atRoot = true)
    (task : Task) (rest : List Task) :
    RebasedAlike base other (perform net mode first (task.onto base) (rest.map (Task.onto base)))
      (perform net mode second (task.onto other) (rest.map (Task.onto other))) := by
  cases task with
  | report x => exact ⟨⟨rest, rfl, rfl⟩, rebased.visited, congrArg (RangeSet.insert · x) rebased.found⟩
  | consume kind =>
      simp only [Search.perform, Task.onto]
      cases kind.offer net.maxSymbol with
      | error fault => rfl
      | ok offer => exact ⟨⟨rest, rfl, rfl⟩, rebased.visited, congrArg (RangeSet.union · offer) rebased.found⟩
  | visit config =>
      cases state : config.state with
      | none =>
          have nowhere : ∀ chain, (config.onto chain).state = none := fun _ => state
          simp only [Search.perform, Task.onto, nowhere]
          rfl
      | some id =>
          have here : ∀ chain, (config.onto chain).state = some id := fun _ => state
          have sameMark := rebased.visited (net.state id).number config.stack
          by_cases seen : ((net.state id).number, config.stack ++ base) ∈ first.visited
          · have passed := @perform_visit_of_mem net mode first (config.onto base) id (rest.map (Task.onto base))
              (here base) seen
            have alsoPassed := @perform_visit_of_mem net mode second (config.onto other) id
              (rest.map (Task.onto other)) (here other) (sameMark.mp seen)
            simp only [Task.onto, passed, alsoPassed]
            exact ⟨⟨rest, rfl, rfl⟩, rebased.visited, rebased.found⟩
          · have unseen := fun marked => seen (sameMark.mpr marked)
            obtain ⟨expansion, expands⟩ := exists_expand_onto net mode id config
            have expanded := expands base rooted
            have alsoExpanded := expands other alsoRooted
            cases expansion with
            | error fault =>
                simp only [Task.onto, perform_visit_of_error (here base) seen expanded,
                  perform_visit_of_error (here other) unseen alsoExpanded]
                rfl
            | ok tasks =>
                simp only [Task.onto, perform_visit_of_not_mem (here base) seen expanded,
                  perform_visit_of_not_mem (here other) unseen alsoExpanded]
                exact rebased.expanded _ config.stack tasks rest

theorem Rebased.exists_alike
    (net : Network) (mode : SearchMode) (rebased : Rebased base other first second)
    (rooted : base.atRoot = true) (alsoRooted : other.atRoot = true) {done : Task} {later : List Task}
    (pending : first.pending = done :: later) :
    ∃ task rest, second.pending = task :: rest ∧
      RebasedAlike base other (Search.perform net mode first done later) (Search.perform net mode second task rest) := by
  obtain ⟨tasks, sameTasks, alsoSameTasks⟩ := rebased.pending
  rw [pending] at sameTasks
  cases tasks with
  | nil => exact nomatch sameTasks
  | cons task rest =>
      obtain ⟨rfl, rfl⟩ := List.cons.inj sameTasks
      exact ⟨_, _, alsoSameTasks, rebased.perform rooted alsoRooted task rest⟩

theorem Rebased.ends
    (rebased : Rebased base other first second) (rooted : base.atRoot = true) (alsoRooted : other.atRoot = true)
    (ends : Ends net mode first outcome steps) : Ends net mode second outcome steps := by
  induction ends generalizing second with
  | done idle =>
      obtain ⟨tasks, sameTasks, alsoSameTasks⟩ := rebased.pending
      rw [idle] at sameTasks
      rw [List.map_eq_nil_iff.mp sameTasks.symm] at alsoSameTasks
      rw [← rebased.found]
      exact .done alsoSameTasks
  | failed pending performed =>
      obtain ⟨task, rest, alsoPending, alike⟩ := rebased.exists_alike net mode rooted alsoRooted pending
      rw [performed] at alike
      exact .failed alsoPending alike.eq_of_error
  | step pending performed _ inductionHypothesis =>
      obtain ⟨task, rest, alsoPending, alike⟩ := rebased.exists_alike net mode rooted alsoRooted pending
      rw [performed] at alike
      obtain ⟨alsoNext, alsoPerformed, later⟩ := alike.exists_of_ok
      exact .step alsoPending alsoPerformed (inductionHypothesis later)

end Rebased

end Search

/-- What lies beyond the first root link of a chain makes no difference to a search. -/
theorem Network.lookahead_append_eq
    (net : Network) (mode : SearchMode) (state : Option StateId) (links : List Int) {base other : CallStack}
    (rooted : base.atRoot = true) (alsoRooted : other.atRoot = true) :
    net.lookahead mode state (links ++ base) = net.lookahead mode state (links ++ other) := by
  obtain ⟨steps, ends, _⟩ := Search.ends_lookahead net mode state (links ++ base)
  have alsoEnds := (Search.rebased_start base other state links).ends rooted alsoRooted ends
  exact alsoEnds.lookahead_eq.symm

end GrammarNet
