import GrammarNet.Search.Basic

/-!
# The search is finite

A rule is entered once on a path before it is left again, so a chain never grows longer than it was at the start by
more than the number of rules. Hence the configurations that a search can visit are among finitely many, whatever the
network looks like.
-/

namespace GrammarNet

/-! ## Words over an alphabet -/

/-- The words of at most a given length. -/
def words {α : Type} (alphabet : List α) : Nat → List (List α)
  | 0 => [[]]
  | length + 1 => [] :: alphabet.flatMap fun letter => (words alphabet length).map (letter :: ·)

theorem mem_words
    {α : Type} {alphabet word : List α} {length : Nat}
    (short : word.length ≤ length)
    (letters : ∀ letter ∈ word, letter ∈ alphabet) :
    word ∈ words alphabet length := by
  induction length generalizing word with
  | zero =>
      have empty : word = [] := List.eq_nil_of_length_eq_zero (by omega)
      simp [words, empty]
  | succ length inductionHypothesis =>
      cases word with
      | nil => simp [words]
      | cons first rest =>
          have restShort : rest.length ≤ length := by
            simp only [List.length_cons] at short
            omega
          have restMember : rest ∈ words alphabet length :=
            inductionHypothesis restShort fun letter member =>
              letters letter (List.mem_cons_of_mem first member)
          have firstMember : first ∈ alphabet := letters first List.mem_cons_self
          simp only [words, List.mem_cons, List.mem_flatMap, List.mem_map]
          exact Or.inr ⟨first, firstMember, rest, restMember, rfl⟩

/-! ## Numbers and rules of a network -/

namespace Network

/-- The numbers of the states of a network, and the number of a state that was never made. -/
def numbers (net : Network) : List Int := (default : State).number :: net.store.toList.map State.number

/-- The rules of the states of a network, and the rule of a state that was never made. -/
def rules (net : Network) : List Int := (default : State).rule :: net.store.toList.map State.rule

theorem number_mem_numbers (net : Network) (id : StateId) : (net.state id).number ∈ net.numbers := by
  unfold state numbers
  cases found : net.store[id]? with
  | none => simp
  | some s =>
      have member : s ∈ net.store := Array.mem_of_getElem? found
      simp only [Option.getD_some]
      exact List.mem_cons_of_mem _ (List.mem_map_of_mem (Array.mem_toList_iff.mpr member))

theorem rule_mem_rules (net : Network) (id : StateId) : (net.state id).rule ∈ net.rules := by
  unfold state rules
  cases found : net.store[id]? with
  | none => simp
  | some s =>
      have member : s ∈ net.store := Array.mem_of_getElem? found
      simp only [Option.getD_some]
      exact List.mem_cons_of_mem _ (List.mem_map_of_mem (Array.mem_toList_iff.mpr member))

end Network

/-! ## Configurations within bounds -/

/-- A configuration that a search which started under the chain `base` can reach: its links are numbers of states or
links of `base`, it has entered each rule at most once, and its chain has outgrown `base` by no more than the rules
that it has entered. -/
structure Config.Within (net : Network) (base : CallStack) (config : Config) : Prop where
  links : ∀ link ∈ config.stack, link ∈ net.numbers ++ base
  nodup : config.entered.Nodup
  rules : ∀ rule ∈ config.entered, rule ∈ net.rules
  depth : config.stack.length ≤ base.length + config.entered.length

namespace Config.Within

variable {net : Network} {base : CallStack} {config : Config}

theorem start (net : Network) (base : CallStack) (state : Option StateId) :
    Config.Within net base ⟨state, base, []⟩ where
  links := fun link member => List.mem_append_right net.numbers member
  nodup := List.nodup_nil
  rules := by simp
  depth := by simp

theorem moved (within : config.Within net base) (state : Option StateId) :
    Config.Within net base { config with state := state } where
  links := within.links
  nodup := within.nodup
  rules := within.rules
  depth := within.depth

theorem pushed
    (within : config.Within net base) (state : Option StateId) (invoker callee : StateId)
    (fresh : (net.state callee).rule ∉ config.entered) :
    Config.Within net base
      ⟨state, config.stack.push (net.state invoker).number, (net.state callee).rule :: config.entered⟩ where
  links := by
    intro link member
    rcases List.mem_cons.mp member with rfl | outer
    · exact List.mem_append_left base (net.number_mem_numbers invoker)
    · exact within.links link outer
  nodup := List.nodup_cons.mpr ⟨fresh, within.nodup⟩
  rules := by
    intro rule member
    rcases List.mem_cons.mp member with rfl | earlier
    · exact net.rule_mem_rules callee
    · exact within.rules rule earlier
  depth := by
    have bound := within.depth
    simp only [CallStack.push, List.length_cons]
    omega

theorem popped
    (within : config.Within net base) (state : Option StateId) {link : Int} {outer : CallStack}
    (stack : config.stack = link :: outer) (rule : Int) :
    Config.Within net base ⟨state, outer, config.entered.erase rule⟩ where
  links := by
    intro earlier member
    exact within.links earlier (by rw [stack]; exact List.mem_cons_of_mem link member)
  nodup := within.nodup.erase rule
  rules := fun earlier member => within.rules earlier (List.mem_of_mem_erase member)
  depth := by
    have bound := within.depth
    have shrunk := @List.le_length_erase _ _ _ rule config.entered
    rw [stack, List.length_cons] at bound
    simp only
    omega

/-- A chain outgrows the one at the start by at most the number of rules. -/
theorem stack_length_le (within : config.Within net base) :
    config.stack.length ≤ base.length + net.rules.length := by
  have bound := within.depth
  have few : config.entered.length ≤ net.rules.length :=
    within.nodup.length_le_of_subset fun rule member => within.rules rule member
  omega

end Config.Within

/-- A task is within bounds if the configuration that it visits is. -/
def Task.Within (net : Network) (base : CallStack) : Task → Prop
  | .visit config => config.Within net base
  | .report _ => True
  | .consume _ => True

/-- A search is within bounds if all its pending tasks are. -/
def Search.Within (net : Network) (base : CallStack) (search : Search) : Prop :=
  ∀ task ∈ search.pending, task.Within net base

namespace Search

variable {net : Network} {base : CallStack} {mode : SearchMode}

theorem start_within (net : Network) (state : Option StateId) (stack : CallStack) :
    (start state stack).Within net stack := by
  intro task member
  simp only [start, List.mem_singleton] at member
  subst member
  exact Config.Within.start net stack state

theorem follow_within
    {config : Config} (within : config.Within net base) (id : StateId) (t : Transition) :
    ∀ task ∈ follow net mode (net.state id) config t, task.Within net base := by
  have visit : Task.Within net base (.visit { config with state := some t.target }) :=
    within.moved _
  have single : ∀ {only : Task}, only.Within net base → ∀ task ∈ [only], task.Within net base := by
    intro only onlyWithin task member
    rw [List.mem_singleton.mp member]
    exact onlyWithin
  unfold follow
  split
  · by_cases entered : (net.state t.target).rule ∈ config.entered
    · simp [entered]
    · simp only [entered, if_false]
      exact single (within.pushed _ id t.target entered)
  · cases mode.throughPredicates
    · exact single trivial
    · exact single visit
  · cases mode.throughPredicates
    · exact single trivial
    · exact single visit
  · cases mode.throughPredicates
    · exact single trivial
    · exact single visit
  · exact single visit
  · exact single visit
  · exact single trivial

theorem flatMap_follow_within
    {config : Config} (within : config.Within net base) (id : StateId) (transitions : List Transition) :
    ∀ task ∈ transitions.flatMap (follow net mode (net.state id) config), task.Within net base := by
  intro task member
  obtain ⟨t, _, taskMember⟩ := List.mem_flatMap.mp member
  exact follow_within within id t task taskMember

theorem expand_within
    {config : Config} (within : config.Within net base) {id : StateId} {tasks : List Task}
    (expanded : expand net mode id config = .ok tasks) :
    ∀ task ∈ tasks, task.Within net base := by
  unfold expand at expanded
  simp only at expanded
  split at expanded
  · split at expanded
    · injection expanded with tasksEq
      subst tasksEq
      intro task member
      simp only [List.mem_singleton] at member
      subst member
      trivial
    · injection expanded with tasksEq
      subst tasksEq
      exact flatMap_follow_within within id _
  · rename_i link outer stack
    split at expanded
    · injection expanded with tasksEq
      subst tasksEq
      intro task member
      simp only [List.mem_singleton] at member
      subst member
      trivial
    · split at expanded
      · cases followed : net.followState link with
        | error fault =>
            rw [followed] at expanded
            contradiction
        | ok next =>
            rw [followed] at expanded
            injection expanded with tasksEq
            subst tasksEq
            intro task member
            simp only [List.mem_singleton] at member
            subst member
            exact within.popped next stack _
      · injection expanded with tasksEq
        subst tasksEq
        exact flatMap_follow_within within id _

/-! ## The measure -/

/-- The keys of the configurations that a search started under `base` can visit. -/
def keys (net : Network) (base : CallStack) : List VisitKey :=
  net.numbers.flatMap fun number =>
    (words (net.numbers ++ base) (base.length + net.rules.length)).map fun stack => (number, stack)

/-- How many keys a search has not visited yet. -/
def unvisited (net : Network) (base : CallStack) (visited : Std.HashSet VisitKey) : Nat :=
  ((keys net base).filter fun key => decide (key ∉ visited)).length

theorem mem_keys {config : Config} (within : config.Within net base) (id : StateId) :
    ((net.state id).number, config.stack) ∈ keys net base := by
  have stackMember := mem_words within.stack_length_le within.links
  simp only [keys, List.mem_flatMap, List.mem_map]
  exact ⟨_, net.number_mem_numbers id, _, stackMember, rfl⟩

theorem unvisited_insert_lt
    {key : VisitKey} {visited : Std.HashSet VisitKey}
    (known : key ∈ keys net base) (fresh : key ∉ visited) :
    unvisited net base (visited.insert key) < unvisited net base visited := by
  have narrowed :
      (keys net base).filter (fun other => decide (other ∉ visited.insert key)) =
        ((keys net base).filter fun other => decide (other ∉ visited)).filter
          fun other => decide (key ≠ other) := by
    rw [List.filter_filter]
    congr 1
    funext other
    simp [Std.HashSet.mem_insert]
  unfold unvisited
  rw [narrowed, List.length_filter_lt_length_iff_exists]
  exact ⟨key, List.mem_filter.mpr ⟨known, by simpa using fresh⟩, by simp⟩

/-- A performed task leaves a search within bounds, and either a key less to visit or a task less to do. -/
theorem perform_progress
    {search next : Search} {task : Task} {rest : List Task}
    (pending : search.pending = task :: rest)
    (within : search.Within net base)
    (performed : perform net mode search task rest = .ok next) :
    next.Within net base ∧
      Prod.Lex (· < ·) (· < ·)
        (unvisited net base next.visited, next.pending.length)
        (unvisited net base search.visited, search.pending.length) := by
  have restWithin : ∀ later ∈ rest, later.Within net base := fun later member =>
    within later (by rw [pending]; exact List.mem_cons_of_mem task member)
  have shorter : rest.length < search.pending.length := by
    rw [pending, List.length_cons]
    exact Nat.lt_succ_self _
  cases task with
  | report x =>
      simp only [perform] at performed
      injection performed with nextEq
      subst nextEq
      exact ⟨restWithin, Prod.Lex.right _ shorter⟩
  | consume kind =>
      simp only [perform] at performed
      cases offered : kind.offer net.maxSymbol with
      | error fault =>
          rw [offered] at performed
          contradiction
      | ok offer =>
          rw [offered] at performed
          injection performed with nextEq
          subst nextEq
          exact ⟨restWithin, Prod.Lex.right _ shorter⟩
  | visit config =>
      have configWithin : config.Within net base :=
        within (.visit config) (by rw [pending]; exact List.mem_cons_self)
      simp only [perform] at performed
      split at performed
      · contradiction
      · rename_i id _
        split at performed
        · injection performed with nextEq
          subst nextEq
          exact ⟨restWithin, Prod.Lex.right _ shorter⟩
        · rename_i fresh
          split at performed
          · contradiction
          · rename_i tasks expanded
            injection performed with nextEq
            subst nextEq
            constructor
            · intro later member
              rcases List.mem_append.mp member with child | old
              · exact expand_within configWithin expanded later child
              · exact restWithin later old
            · exact Prod.Lex.left _ _ (unvisited_insert_lt (mem_keys configWithin id) fresh)

end Search

end GrammarNet
