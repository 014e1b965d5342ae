import GrammarNet.Search.Run

/-!
# Searches as finite derivations

`Ends` says that the pending tasks of a search, done one after the other, come to an end: nothing is pending any more,
or a task fails. It counts the tasks, and it has no rule for a search that goes on forever. Every search within bounds
ends, after no more tasks than its keys and the branching of the network allow, and `run` yields the outcome.
-/

namespace GrammarNet

namespace Search

/-! ## What one task does -/

/-- The search that a task leaves behind, by what the task was. -/
inductive Performed (net : Network) (mode : SearchMode) (search : Search) (rest : List Task) : Task → Search → Prop
  | reported (x : Symbol) :
      Performed net mode search rest (.report x) { search with pending := rest, found := search.found.insert x }
  | consumed {kind : TransitionKind} {offer : RangeSet} (offered : kind.offer net.maxSymbol = .ok offer) :
      Performed net mode search rest (.consume kind)
        { search with pending := rest, found := search.found.union offer }
  | passed {config : Config} {id : StateId} (state : config.state = some id)
      (seen : ((net.state id).number, config.stack) ∈ search.visited) :
      Performed net mode search rest (.visit config) { search with pending := rest }
  | expanded {config : Config} {id : StateId} {tasks : List Task} (state : config.state = some id)
      (fresh : ((net.state id).number, config.stack) ∉ search.visited)
      (expanded : expand net mode id config = .ok tasks) :
      Performed net mode search rest (.visit config)
        { search with
          pending := tasks ++ rest
          visited := search.visited.insert ((net.state id).number, config.stack) }

/-- The fault of a task, by what the task was. -/
inductive Refused (net : Network) (mode : SearchMode) : Task → Fault → Prop
  | consumed {kind : TransitionKind} {fault : Fault} (refused : kind.offer net.maxSymbol = .error fault) :
      Refused net mode (.consume kind) fault
  | nowhere {config : Config} (state : config.state = none) : Refused net mode (.visit config) .noState
  | expanded {config : Config} {id : StateId} {fault : Fault} (state : config.state = some id)
      (refused : expand net mode id config = .error fault) : Refused net mode (.visit config) fault

variable {net : Network} {mode : SearchMode}

theorem performed_of_ok
    {search next : Search} {task : Task} {rest : List Task}
    (performed : perform net mode search task rest = .ok next) :
    Performed net mode search rest task next := by
  cases task with
  | report x =>
      injection performed with same
      subst same
      exact .reported x
  | consume kind =>
      simp only [perform] at performed
      cases offered : kind.offer net.maxSymbol with
      | error fault =>
          rw [offered] at performed
          contradiction
      | ok offer =>
          rw [offered] at performed
          injection performed with same
          subst same
          exact .consumed offered
  | visit config =>
      simp only [perform] at performed
      split at performed
      · contradiction
      · rename_i id state
        split at performed
        · rename_i seen
          injection performed with same
          subst same
          exact .passed state seen
        · rename_i fresh
          split at performed
          · contradiction
          · rename_i tasks expanded
            injection performed with same
            subst same
            exact .expanded state fresh expanded

theorem refused_of_error
    {search : Search} {task : Task} {rest : List Task} {fault : Fault}
    (performed : perform net mode search task rest = .error fault) : Refused net mode task fault := by
  cases task with
  | report x => contradiction
  | consume kind =>
      simp only [perform] at performed
      cases offered : kind.offer net.maxSymbol with
      | ok offer =>
          rw [offered] at performed
          contradiction
      | error cause =>
          rw [offered] at performed
          injection performed with same
          subst same
          exact .consumed offered
  | visit config =>
      simp only [perform] at performed
      split at performed
      · rename_i nowhere
        injection performed with same
        subst same
        exact .nowhere nowhere
      · rename_i id state
        split at performed
        · contradiction
        · split at performed
          · rename_i cause refused
            injection performed with same
            subst same
            exact .expanded state refused
          · contradiction

theorem perform_consume_of_ok
    {search : Search} {kind : TransitionKind} {rest : List Task} {offer : RangeSet}
    (offered : kind.offer net.maxSymbol = .ok offer) :
    perform net mode search (.consume kind) rest =
      .ok { search with pending := rest, found := search.found.union offer } := by
  simp only [perform, offered, Except.map]

/-! ## Ends -/

/-- The pending tasks of a search come to an end with `outcome` after `steps` tasks. -/
inductive Ends (net : Network) (mode : SearchMode) : Search → Except Fault RangeSet → Nat → Prop
  | done {search : Search} (idle : search.pending = []) : Ends net mode search (.ok search.found) 0
  | failed {search : Search} {task : Task} {rest : List Task} {fault : Fault}
      (pending : search.pending = task :: rest) (performed : perform net mode search task rest = .error fault) :
      Ends net mode search (.error fault) 1
  | step {search next : Search} {task : Task} {rest : List Task} {outcome : Except Fault RangeSet} {steps : Nat}
      (pending : search.pending = task :: rest) (performed : perform net mode search task rest = .ok next)
      (later : Ends net mode next outcome steps) : Ends net mode search outcome (steps + 1)

namespace Ends

variable {search : Search} {outcome : Except Fault RangeSet} {steps : Nat}

/-- The outcome of a search that ends is what running it yields. -/
theorem run_eq (ends : Ends net mode search outcome steps) {base : CallStack} (within : search.Within net base) :
    search.run net mode base within = outcome := by
  induction ends with
  | done idle => exact run_of_nil within idle
  | failed pending performed => exact run_of_error within pending performed
  | step pending performed _ inductionHypothesis =>
      rw [run_of_ok within pending performed]
      exact inductionHypothesis _

theorem lookahead_eq
    {state : Option StateId} {stack : CallStack} (ends : Ends net mode (start state stack) outcome steps) :
    net.lookahead mode state stack = outcome :=
  ends.run_eq (start_within net state stack)

/-- What each task preserves holds at the end of the run: of the search that is done, or of the one whose next task
fails. -/
theorem invariant
    {P : Search → Prop} (ends : Ends net mode search outcome steps) (holds : P search)
    (keeps : ∀ {search next : Search} {task : Task} {rest : List Task}, P search → search.pending = task :: rest →
      Performed net mode search rest task next → P next) :
    (∃ last, P last ∧ last.pending = [] ∧ outcome = .ok last.found) ∨
      ∃ last task rest fault, P last ∧ last.pending = task :: rest ∧ Refused net mode task fault ∧
        outcome = .error fault := by
  induction ends with
  | done idle => exact Or.inl ⟨_, holds, idle, rfl⟩
  | failed pending performed => exact Or.inr ⟨_, _, _, _, holds, pending, refused_of_error performed, rfl⟩
  | step pending performed _ inductionHypothesis =>
      exact inductionHypothesis (keeps holds pending (performed_of_ok performed))

end Ends

end Search

/-! ## A bound on the number of tasks -/

namespace Network

/-- The greatest number of transitions that leave a state, and at least one. -/
def branching (net : Network) : Nat := (net.store.toList.map fun s => s.transitions.length).foldr max 1

theorem one_le_branching (net : Network) : 1 ≤ net.branching := by
  unfold branching
  induction net.store.toList with
  | nil => simp
  | cons s rest inductionHypothesis =>
      simp only [List.map_cons, List.foldr_cons]
      omega

theorem length_transitions_le_branching (net : Network) (id : StateId) :
    (net.state id).transitions.length ≤ net.branching := by
  unfold state
  cases found : net.store[id]? with
  | none => exact Nat.zero_le _
  | some s =>
      have member : s ∈ net.store.toList := Array.mem_toList_iff.mpr (Array.mem_of_getElem? found)
      simp only [Option.getD_some]
      unfold branching
      generalize net.store.toList = states at member
      induction states with
      | nil => simp at member
      | cons first rest inductionHypothesis =>
          simp only [List.map_cons, List.foldr_cons]
          rcases List.mem_cons.mp member with rfl | member
          · omega
          · have bound := inductionHypothesis member
            omega

end Network

namespace Search

variable {net : Network} {mode : SearchMode} {base : CallStack}

theorem length_follow_le (s : State) (config : Config) (t : Transition) :
    (follow net mode s config t).length ≤ 1 := by
  unfold follow
  split
  · simp only
    split <;> simp
  · split <;> simp
  · split <;> simp
  · split <;> simp
  · simp
  · simp
  · simp

theorem length_flatMap_follow_le (s : State) (config : Config) (transitions : List Transition) :
    (transitions.flatMap (follow net mode s config)).length ≤ transitions.length := by
  induction transitions with
  | nil => simp
  | cons t rest inductionHypothesis =>
      have one : (follow net mode s config t).length ≤ 1 := length_follow_le s config t
      simp only [List.flatMap_cons, List.length_append, List.length_cons]
      omega

theorem length_expand_le
    {id : StateId} {config : Config} {tasks : List Task} (expanded : expand net mode id config = .ok tasks) :
    tasks.length ≤ net.branching := by
  have least := net.one_le_branching
  have ways : ((net.state id).transitions.flatMap (follow net mode (net.state id) config)).length ≤ net.branching :=
    Nat.le_trans (length_flatMap_follow_le _ _ _) (net.length_transitions_le_branching id)
  unfold expand at expanded
  simp only at expanded
  split at expanded
  · split at expanded
    · injection expanded with same
      subst same
      exact least
    · injection expanded with same
      subst same
      exact ways
  · rename_i link outer _
    split at expanded
    · injection expanded with same
      subst same
      exact least
    · split at expanded
      · cases followed : net.followState link with
        | error fault =>
            rw [followed] at expanded
            contradiction
        | ok next =>
            rw [followed] at expanded
            injection expanded with same
            subst same
            exact least
      · injection expanded with same
        subst same
        exact ways

/-- How many tasks a search can still do: those that are pending, and as many for each key that is not visited yet as
a state has ways out. -/
def taskBound (net : Network) (base : CallStack) (search : Search) : Nat :=
  unvisited net base search.visited * net.branching + search.pending.length

theorem taskBound_lt
    {search next : Search} {task : Task} {rest : List Task}
    (within : search.Within net base) (pending : search.pending = task :: rest)
    (performed : Performed net mode search rest task next) :
    taskBound net base next < taskBound net base search := by
  unfold taskBound
  rw [pending]
  cases performed with
  | reported x => exact Nat.add_lt_add_left (Nat.lt_succ_self _) _
  | consumed offered => exact Nat.add_lt_add_left (Nat.lt_succ_self _) _
  | passed state seen => exact Nat.add_lt_add_left (Nat.lt_succ_self _) _
  | @expanded config id tasks state fresh expanded =>
      have configWithin : config.Within net base := within (.visit config) (by rw [pending]; exact List.mem_cons_self)
      have fewer := unvisited_insert_lt (mem_keys configWithin id) fresh
      have short := length_expand_le expanded
      have room := Nat.mul_le_mul_right net.branching fewer
      simp only [List.length_append, List.length_cons, Nat.succ_mul] at room ⊢
      omega

/-- Every search within bounds ends. -/
theorem exists_ends {search : Search} (within : search.Within net base) :
    ∃ outcome steps, Ends net mode search outcome steps ∧ steps ≤ taskBound net base search := by
  induction size : taskBound net base search using Nat.strongRecOn generalizing search with
  | ind size inductionHypothesis =>
      cases pending : search.pending with
      | nil => exact ⟨_, 0, .done pending, Nat.zero_le _⟩
      | cons task rest =>
          have positive : 0 < taskBound net base search := by
            unfold taskBound
            rw [pending]
            exact Nat.lt_of_lt_of_le (Nat.succ_pos _) (Nat.le_add_left _ _)
          cases performed : perform net mode search task rest with
          | error fault => exact ⟨_, 1, .failed pending performed, by omega⟩
          | ok next =>
              have fewer := taskBound_lt within pending (performed_of_ok performed)
              obtain ⟨outcome, steps, ends, bounded⟩ :=
                inductionHypothesis _ (by omega) (perform_progress pending within performed).1 rfl
              exact ⟨outcome, steps + 1, .step pending performed ends, by omega⟩

theorem unvisited_empty (net : Network) (base : CallStack) : unvisited net base ∅ = (keys net base).length :=
  congrArg List.length (List.filter_eq_self.mpr (by simp))

theorem taskBound_start (net : Network) (state : Option StateId) (stack : CallStack) :
    taskBound net stack (start state stack) = (keys net stack).length * net.branching + 1 := by
  unfold taskBound
  rw [show (start state stack).visited = ∅ from rfl, unvisited_empty]
  rfl

/-- The search for what can come next ends with the outcome that `lookahead` yields, after no more tasks than the
network and the chain of callers allow. -/
theorem ends_lookahead (net : Network) (mode : SearchMode) (state : Option StateId) (stack : CallStack) :
    ∃ steps, Ends net mode (start state stack) (net.lookahead mode state stack) steps ∧
      steps ≤ (keys net stack).length * net.branching + 1 := by
  obtain ⟨outcome, steps, ends, bounded⟩ := @exists_ends net mode stack _ (start_within net state stack)
  rw [taskBound_start] at bounded
  exact ⟨steps, ends.lookahead_eq ▸ ends, bounded⟩

end Search

end GrammarNet
