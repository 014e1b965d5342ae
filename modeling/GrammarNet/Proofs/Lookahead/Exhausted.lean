import GrammarNet.Proofs.Lookahead.Evaluation
import GrammarNet.Proofs.RangeSet.Complement
import GrammarNet.Proofs.Search.Offers

/-!
# Unknown and exhausted callers

A chain about whose end nothing is known and the same chain, ended by a root, are searched in lockstep, whatever the
network: the tasks, the marks of what was visited and the faults correspond one to one. Only where a path leaves the
outermost rule does one search find the epsilon mark and the other the end of the input.
-/

namespace GrammarNet

/-! ## Offers without the epsilon mark -/

/-- What a transition of this kind offers is free of inverted ranges and of the epsilon mark, as far as that is up to
its label. The complement of a label holds user symbols only. -/
def TransitionKind.Markless (greatest : Symbol) : TransitionKind → Prop
  | .atom _ label | .range _ _ label | .set label =>
      (∀ r ∈ label.set.ranges, r.start ≤ r.stop) ∧ Symbol.epsilon ∉ label.set
  | .notSet label =>
      Symbol.firstUser ≤ greatest →
        ∀ rest, label.set.complement Symbol.firstUser greatest = .ok rest → ∀ r ∈ rest.ranges, r.start ≤ r.stop
  | _ => True

instance (greatest : Symbol) : (kind : TransitionKind) → Decidable (kind.Markless greatest)
  | .atom _ label | .range _ _ label | .set label =>
      inferInstanceAs (Decidable ((∀ r ∈ label.set.ranges, r.start ≤ r.stop) ∧ Symbol.epsilon ∉ label.set))
  | .notSet label =>
      decidable_of_iff
        (Symbol.firstUser ≤ greatest →
          ∀ rest ∈ (label.set.complement Symbol.firstUser greatest).toOption, ∀ r ∈ rest.ranges, r.start ≤ r.stop)
        (by simp only [mem_toOption_iff, TransitionKind.Markless])
  | .plain | .abstractPredicate | .epsilon _ | .wildcard | .rule .. | .predicate .. | .precedence _ | .action .. =>
      inferInstanceAs (Decidable True)

/-- No transition offers an inverted range or the epsilon mark, whether its state is listed or not. -/
def Network.Markless (net : Network) : Prop :=
  ∀ s ∈ net.store.toList, ∀ t ∈ s.transitions, t.kind.Markless net.maxSymbol

instance (net : Network) : Decidable net.Markless :=
  inferInstanceAs (Decidable (∀ s ∈ net.store.toList, ∀ t ∈ s.transitions, t.kind.Markless net.maxSymbol))

theorem Network.Markless.of_mem
    {net : Network} (markless : net.Markless) {id : StateId} {t : Transition}
    (member : t ∈ (net.state id).transitions) : t.kind.Markless net.maxSymbol :=
  markless _ (state_mem_store member) t member

theorem TransitionKind.Markless.of_offer
    {kind : TransitionKind} {greatest : Symbol} {offer : RangeSet} (markless : kind.Markless greatest)
    (offered : kind.offer greatest = .ok offer) :
    (∀ r ∈ offer.ranges, r.start ≤ r.stop) ∧ Symbol.epsilon ∉ offer := by
  have nothing : (∀ r ∈ RangeSet.empty.ranges, r.start ≤ r.stop) ∧ Symbol.epsilon ∉ RangeSet.empty :=
    ⟨by simp, RangeSet.not_mem_empty _⟩
  have low : ¬ Symbol.firstUser ≤ Symbol.epsilon := by decide
  cases kind with
  | atom | range | set =>
      obtain rfl := Except.ok.inj offered
      exact markless
  | notSet label =>
      simp only [TransitionKind.offer] at offered
      split at offered
      · obtain rfl := Except.ok.inj offered
        exact nothing
      · rename_i large
        exact ⟨markless (Int.not_lt.mp large) _ offered, fun marked =>
          low (RangeSet.le_of_mem_complement offered marked)⟩
  | wildcard =>
      simp only [TransitionKind.offer] at offered
      split at offered
      · obtain rfl := Except.ok.inj offered
        exact nothing
      · rename_i large
        obtain rfl := Except.ok.inj offered
        have upright : Symbol.firstUser ≤ greatest + 1 :=
          Int.le_trans (Int.not_lt.mp large) (Int.le_of_lt (Int.lt_succ greatest))
        refine ⟨fun r member => ?_, fun marked => ?_⟩
        · rw [List.mem_singleton.mp member]
          exact upright
        · rw [RangeSet.ascending_empty.mem_insertRange upright, or_iff_left (RangeSet.not_mem_empty _)] at marked
          exact low marked.1
  | plain | abstractPredicate | epsilon | rule | predicate | precedence | action =>
      obtain rfl := Except.ok.inj offered
      exact nothing

/-! ## Chains ended by a root -/

/-- The configuration with its chain ended by a root. -/
def Config.ended (config : Config) : Config := { config with stack := .rooted config.stack }

/-- What a root makes of a task: a path that leaves the outermost rule ends the input. -/
def Task.ended : Task → Task
  | .visit config => .visit config.ended
  | .report x => .report (if x = .epsilon then .endOfInput else x)
  | .consume kind => .consume kind

/-- The integer is in the set once the end of the input has taken the place of the epsilon mark. -/
def RangeSet.Ended (found : RangeSet) (x : Symbol) : Prop :=
  (x ∈ found ∧ x ≠ Symbol.epsilon) ∨ (x = Symbol.endOfInput ∧ Symbol.epsilon ∈ found)

namespace Search

variable {net : Network} {mode : SearchMode}

theorem follow_ended (s : State) (config : Config) (t : Transition) :
    follow net mode s config.ended t = (follow net mode s config t).map Task.ended := by
  obtain ⟨target, kind⟩ := t
  cases kind with
  | rule index precedence next =>
      by_cases entered : (net.state target).rule ∈ config.entered
      · simp only [follow, Config.ended, entered, if_true, List.map_nil]
      · simp only [follow, Config.ended, entered, if_false]
        rfl
  | abstractPredicate | predicate | precedence =>
      unfold follow
      simp only
      split <;> rfl
  | epsilon | action | plain | atom | range | set | notSet | wildcard => rfl

theorem flatMap_follow_ended (s : State) (config : Config) (transitions : List Transition) :
    transitions.flatMap (follow net mode s config.ended) =
      (transitions.flatMap (follow net mode s config)).map Task.ended := by
  rw [List.map_flatMap]
  exact congrArg transitions.flatMap (funext (follow_ended s config))

/-- A root below the chain changes what a configuration leads to only where the chain is used up. -/
theorem expand_ended (marks : mode.marksEnd = true) (id : StateId) (config : Config) :
    expand net mode id config.ended = (expand net mode id config).map (List.map Task.ended) := by
  obtain ⟨state, stack, entered⟩ := config
  have onward := @flatMap_follow_ended net mode (net.state id) ⟨state, stack, entered⟩ (net.state id).transitions
  cases stack with
  | nil =>
      have negative : (-1 : Int) < 0 := by decide
      have uninvoked : ¬ (0 : Int) ≤ -1 := by decide
      unfold expand
      simp only [Config.ended, CallStack.rooted, CallStack.root, List.nil_append, negative, uninvoked, marks, and_true,
        and_false, if_false]
      split
      · rfl
      · exact congrArg Except.ok onward
  | cons link outer =>
      unfold expand
      simp only [Config.ended, CallStack.rooted, List.cons_append]
      split
      · rfl
      · split
        · cases net.followState link <;> rfl
        · exact congrArg Except.ok onward

/-! ## Lockstep -/

/-- The second search does what the first one does, with the chains ended by a root. -/
structure Lockstep (net : Network) (first second : Search) : Prop where
  pending : second.pending = first.pending.map Task.ended
  visited : ∀ number stack, (number, CallStack.rooted stack) ∈ second.visited ↔ (number, stack) ∈ first.visited
  markless : ∀ kind, .consume kind ∈ first.pending → kind.Markless net.maxSymbol
  ascends : first.found.Ascending
  alsoAscends : second.found.Ascending
  members : ∀ x, x ∈ second.found ↔ first.found.Ended x

theorem lockstep_start (state : Option StateId) (stack : CallStack) :
    Lockstep net (start state stack) (start state (.rooted stack)) where
  pending := rfl
  visited := fun _ _ => by simp [start]
  markless := fun kind member => by simp [start] at member
  ascends := RangeSet.ascending_empty
  alsoAscends := RangeSet.ascending_empty
  members := fun x => by
    have nothing : ∀ {y : Symbol}, y ∉ RangeSet.empty := fun {y} => RangeSet.not_mem_empty y
    exact iff_of_false nothing fun ended => ended.elim (fun left => nothing left.1) fun right => nothing right.2

section Lockstep

variable {first second next : Search} {task : Task} {rest : List Task}

/-- What is reported changes both sets in the same way, up to the marks of the end. -/
theorem Lockstep.reported
    (lockstep : Lockstep net first second) (tail : ∀ other ∈ rest, other ∈ first.pending) (x : Symbol) :
    Lockstep net { first with pending := rest, found := first.found.insert x }
      { second with
        pending := rest.map Task.ended
        found := second.found.insert (if x = Symbol.epsilon then Symbol.endOfInput else x) } where
  pending := rfl
  visited := lockstep.visited
  markless := fun kind member => lockstep.markless kind (tail _ member)
  ascends := lockstep.ascends.insert x
  alsoAscends := lockstep.alsoAscends.insert _
  members := by
    intro y
    have apart : Symbol.endOfInput ≠ Symbol.epsilon := by decide
    unfold RangeSet.Ended
    rw [lockstep.alsoAscends.mem_insert, lockstep.members, RangeSet.Ended, lockstep.ascends.mem_insert,
      lockstep.ascends.mem_insert]
    grind

theorem Lockstep.consumed
    (lockstep : Lockstep net first second) (tail : ∀ other ∈ rest, other ∈ first.pending) {offer : RangeSet}
    (upright : ∀ r ∈ offer.ranges, r.start ≤ r.stop) (noMark : Symbol.epsilon ∉ offer) :
    Lockstep net { first with pending := rest, found := first.found.union offer }
      { second with pending := rest.map Task.ended, found := second.found.union offer } where
  pending := rfl
  visited := lockstep.visited
  markless := fun kind member => lockstep.markless kind (tail _ member)
  ascends := lockstep.ascends.union upright
  alsoAscends := lockstep.alsoAscends.union upright
  members := by
    intro y
    unfold RangeSet.Ended
    rw [lockstep.alsoAscends.mem_union upright, lockstep.members, RangeSet.Ended, lockstep.ascends.mem_union upright,
      lockstep.ascends.mem_union upright, or_iff_left noMark]
    have offered : y ∈ offer → y ≠ Symbol.epsilon := fun member same => noMark (same ▸ member)
    tauto

/-- A configuration that is expanded is expanded in both, and leaves corresponding marks. -/
theorem Lockstep.expanded
    (lockstep : Lockstep net first second) (markless : net.Markless) (tail : ∀ other ∈ rest, other ∈ first.pending)
    {id : StateId} {config : Config} {tasks : List Task} (expanded : expand net mode id config = .ok tasks) :
    Lockstep net
      { first with
        pending := tasks ++ rest
        visited := first.visited.insert ((net.state id).number, config.stack) }
      { second with
        pending := tasks.map Task.ended ++ rest.map Task.ended
        visited := second.visited.insert ((net.state id).number, .rooted config.stack) } where
  pending := List.map_append.symm
  visited := by
    intro number stack
    have same := lockstep.visited number stack
    unfold CallStack.rooted at same ⊢
    simp only [Std.HashSet.mem_insert, beq_iff_eq, Prod.mk.injEq, same, List.append_cancel_right_eq]
  markless := by
    intro kind member
    rcases List.mem_append.mp member with fresh | old
    · obtain ⟨_, t, inState, same⟩ := Leads.transition ((mem_expand_iff expanded).mp fresh)
      exact same ▸ markless.of_mem inState
    · exact lockstep.markless kind (tail _ old)
  ascends := lockstep.ascends
  alsoAscends := lockstep.alsoAscends
  members := lockstep.members

/-- A task that one search can do the other can do as well, and they are in lockstep again. -/
theorem Lockstep.performed
    (marks : mode.marksEnd = true) (markless : net.Markless) (lockstep : Lockstep net first second)
    (pending : first.pending = task :: rest) (performed : Performed net mode first rest task next) :
    ∃ other, perform net mode second task.ended (rest.map Task.ended) = .ok other ∧ Lockstep net next other := by
  have tail : ∀ other ∈ rest, other ∈ first.pending := fun other member => by
    rw [pending]
    exact List.mem_cons_of_mem task member
  cases performed with
  | reported x => exact ⟨_, rfl, lockstep.reported tail x⟩
  | @consumed kind offer offered =>
      have kept := lockstep.markless kind (by rw [pending]; exact List.mem_cons_self)
      obtain ⟨upright, noMark⟩ := kept.of_offer offered
      exact ⟨_, perform_consume_of_ok offered, lockstep.consumed tail upright noMark⟩
  | @passed config id state seen =>
      have sameState : config.ended.state = some id := state
      have alsoSeen := (lockstep.visited (net.state id).number config.stack).mpr seen
      refine ⟨_, perform_visit_of_mem sameState alsoSeen, ?_⟩
      exact { lockstep with
        pending := rfl
        markless := fun kind member => lockstep.markless kind (tail _ member) }
  | @expanded config id tasks state fresh expanded =>
      have sameState : config.ended.state = some id := state
      have unseen := fun seen => fresh ((lockstep.visited (net.state id).number config.stack).mp seen)
      have alsoExpanded : expand net mode id config.ended = .ok (tasks.map Task.ended) := by
        rw [expand_ended marks, expanded]
        rfl
      exact ⟨_, perform_visit_of_not_mem sameState unseen alsoExpanded, lockstep.expanded markless tail expanded⟩

/-- A task at which one search fails is one at which the other fails, with the same fault. -/
theorem Lockstep.refused
    (marks : mode.marksEnd = true) (lockstep : Lockstep net first second) {fault : Fault}
    (performed : perform net mode first task rest = .error fault) :
    perform net mode second task.ended (rest.map Task.ended) = .error fault := by
  cases task with
  | report x => contradiction
  | consume kind =>
      simp only [perform, Task.ended] at performed ⊢
      cases offered : kind.offer net.maxSymbol with
      | ok offer =>
          rw [offered] at performed
          contradiction
      | error cause =>
          rw [offered] at performed
          exact performed
  | visit config =>
      cases state : config.state with
      | none =>
          have nowhere : config.ended.state = none := state
          simp only [perform, state] at performed
          simp only [perform, Task.ended, nowhere]
          exact performed
      | some id =>
          have sameState : config.ended.state = some id := state
          by_cases seen : ((net.state id).number, config.stack) ∈ first.visited
          · rw [perform_visit_of_mem state seen] at performed
            contradiction
          · have unseen := fun alsoSeen => seen ((lockstep.visited (net.state id).number config.stack).mp alsoSeen)
            cases expanded : expand net mode id config with
            | ok tasks =>
                rw [perform_visit_of_not_mem state seen expanded] at performed
                contradiction
            | error cause =>
                rw [perform_visit_of_error state seen expanded] at performed
                injection performed with same
                subst same
                apply perform_visit_of_error sameState unseen
                rw [expand_ended marks, expanded]
                rfl

end Lockstep

/-- Both outcomes are the same fault, or sets that differ at most in that the second holds the end of the input where
the first holds the epsilon mark. -/
def EndedAlike : Except Fault RangeSet → Except Fault RangeSet → Prop
  | .ok found, .ok other => ∀ x, x ∈ other ↔ found.Ended x
  | .error fault, .error other => other = fault
  | _, _ => False

theorem EndedAlike.of_ok {found : RangeSet} {outcome : Except Fault RangeSet} (alike : EndedAlike (.ok found) outcome) :
    ∃ other, outcome = .ok other ∧ ∀ x, x ∈ other ↔ found.Ended x := by
  cases outcome with
  | ok other => exact ⟨other, rfl, alike⟩
  | error fault => exact absurd alike not_false

/-- Searches in lockstep come to corresponding ends after the same number of tasks. -/
theorem Lockstep.ends
    (marks : mode.marksEnd = true) (markless : net.Markless) {first second : Search}
    (lockstep : Lockstep net first second)
    {outcome : Except Fault RangeSet} {steps : Nat} (ends : Ends net mode first outcome steps) :
    ∃ other, Ends net mode second other steps ∧ EndedAlike outcome other := by
  induction ends generalizing second with
  | done idle =>
      have alsoIdle : second.pending = [] := by rw [lockstep.pending, idle, List.map_nil]
      exact ⟨_, .done alsoIdle, lockstep.members⟩
  | failed pending performed =>
      have alsoPending := lockstep.pending
      rw [pending, List.map_cons] at alsoPending
      exact ⟨_, .failed alsoPending (lockstep.refused marks performed), rfl⟩
  | step pending performed _ inductionHypothesis =>
      have alsoPending := lockstep.pending
      rw [pending, List.map_cons] at alsoPending
      obtain ⟨next, alsoPerformed, later⟩ := lockstep.performed marks markless pending (performed_of_ok performed)
      obtain ⟨other, ended, alike⟩ := inductionHypothesis later
      exact ⟨other, .step alsoPending alsoPerformed ended, alike⟩

end Search

namespace Lookahead

open Search

/-- On every network without inverted ranges and without the epsilon mark in its labels, a look under a chain about
whose end nothing is known and a look under the same chain, ended by a root, fail with the same fault, or find the same
up to the marks of the end. -/
theorem look_exhausted_of_unknown
    (work : Workspace) (markless : work.net.Markless) (state stop : Option StateId) (links : CallStack) :
    EndedAlike ((look state stop links).runOn work).1 ((look state stop (.rooted links)).runOn work).1 := by
  rw [runOn_look, runOn_look]
  obtain ⟨steps, ends, _⟩ := ends_lookahead work.net { stop := stop } state links
  obtain ⟨other, alsoEnds, alike⟩ := (lockstep_start state links).ends rfl markless ends
  rw [alsoEnds.lookahead_eq]
  exact alike

/-- The network of `r : r ~2 | ;`, whose rule comes back to itself and can match nothing, and `s : r ;`. -/
def nullableRecursion : Network :=
  .ofStates 3 [
    { kind := .ruleStart, rule := 0, transitions := [⟨1, .epsilon (-1)⟩, ⟨3, .epsilon (-1)⟩] },
    { kind := .basic, rule := 0, transitions := [⟨0, .rule 0 0 (some 2)⟩] },
    { kind := .basic, rule := 0, transitions := [⟨3, .notSet (.single 2)⟩] },
    { kind := .ruleStop, rule := 0 },
    { kind := .basic, rule := 1, transitions := [⟨0, .rule 0 0 (some 5)⟩] },
    { kind := .ruleStop, rule := 1 }]

/-- Invoked from `s`, of which no callers are known, `r` enters itself, ends there and goes on behind the invocation. Where
it ends itself, so does `s`. -/
theorem lookahead_nullableRecursion :
    nullableRecursion.lookahead {} (some 0) [4] =
      .ok ⟨some [.single Symbol.epsilon, .single 1, .single 3], false⟩ := by
  have ends : Ends nullableRecursion {} (start (some 0) [4])
      (.ok ⟨some [.single Symbol.epsilon, .single 1, .single 3], false⟩) 10 :=
    .step rfl (perform_visit_of_not_mem rfl (by simp [start]) rfl)
      (.step rfl (perform_visit_of_not_mem rfl (by simp [start]; decide) rfl)
        (.step rfl (perform_visit_of_not_mem rfl (by simp [start, CallStack.push]) rfl)
          (.step rfl (perform_visit_of_not_mem rfl (by simp [start, CallStack.push]; decide) rfl)
            (.step rfl (perform_visit_of_not_mem rfl (by simp [start, CallStack.push]; decide) rfl)
              (.step rfl (perform_visit_of_not_mem rfl (by simp [start, CallStack.push]; decide) rfl)
                (.step rfl (perform_consume_of_ok rfl)
                  (.step rfl (perform_visit_of_not_mem rfl (by simp [start, CallStack.push]; decide) rfl)
                    (.step rfl (perform_visit_of_not_mem rfl (by simp [start, CallStack.push]) rfl)
                      (.step rfl rfl (.done rfl))))))))))
  exact ends.lookahead_eq

/-- A rule that may be empty, called from nowhere that is known, and called by nothing. Called from `s`, whose callers are
used up, the end of the input stands beside what comes next within `r`. -/
theorem look_exhausted_nullableRecursion :
    nullableRecursion.Markless ∧
      EndedAlike ((look (some 0) none []).runOn ⟨nullableRecursion, []⟩).1
        ((look (some 0) none [-1]).runOn ⟨nullableRecursion, []⟩).1 ∧
      ((look (some 0) none [4]).runOn ⟨nullableRecursion, []⟩).1 =
        .ok ⟨some [.single Symbol.epsilon, .single 1, .single 3], false⟩ ∧
      ∃ found, ((look (some 0) none [4, -1]).runOn ⟨nullableRecursion, []⟩).1 = .ok found ∧
        ∀ x, x ∈ found ↔ x = Symbol.endOfInput ∨ x = 1 ∨ x = 3 := by
  have markless : nullableRecursion.Markless := by decide
  have unknown : ((look (some 0) none [4]).runOn ⟨nullableRecursion, []⟩).1 =
      .ok ⟨some [.single Symbol.epsilon, .single 1, .single 3], false⟩ := by
    rw [runOn_look]
    exact lookahead_nullableRecursion
  have alike := look_exhausted_of_unknown ⟨nullableRecursion, []⟩ markless (some 0) none [4]
  rw [unknown] at alike
  refine ⟨markless, look_exhausted_of_unknown ⟨nullableRecursion, []⟩ markless (some 0) none [], unknown, ?_⟩
  obtain ⟨found, ok, members⟩ := alike.of_ok
  refine ⟨found, ok, fun x => (members x).trans ?_⟩
  simp only [RangeSet.Ended, RangeSet.mem_iff_covers, RangeSet.ranges, Option.getD_some, covers_cons, covers_nil,
    Range.mem_single, or_false, true_or, and_true]
  have one : (1 : Symbol) ≠ Symbol.epsilon := by decide
  have three : (3 : Symbol) ≠ Symbol.epsilon := by decide
  grind

end Lookahead

end GrammarNet
