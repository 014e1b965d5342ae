import Mathlib.Data.Finset.Dedup
import GrammarNet.Proofs.Search.Ends
import GrammarNet.Proofs.Search.Recursion

/-!
# The recursion does what the search does

Where calls that share their sets meet a configuration of a search, they do the tasks of the search in its order, and the
called rules are among the rules of the network those that the configuration has entered. So calls that may be nested deeply
enough end, whatever they share at first, and those that begin without anything yield what `lookahead` does.
-/

namespace GrammarNet

/-- The search that has visited and found what is shared. -/
def Shared.search (now : Shared) (pending : List Task) : Search where
  pending := pending
  visited := now.visited
  found := now.found

/-- The set that was found, if the calls have come to an end without a fault. -/
def Shared.yielded (ran : Except Abort Unit × Shared) : Except Abort RangeSet := ran.1.map fun _ => ran.2.found

namespace Search

open SharedM

/-! ## Ends, step by step -/

section Ends

variable {net : Network} {mode : SearchMode} {search next : Search} {task : Task} {rest : List Task}
  {outcome : Except Fault RangeSet} {steps : Nat} {fault : Fault}

theorem Ends.eq_error
    (ends : Ends net mode search outcome steps) (pending : search.pending = task :: rest)
    (performed : perform net mode search task rest = .error fault) : outcome = .error fault := by
  cases ends with
  | done idle =>
      rw [pending] at idle
      contradiction
  | failed also alsoPerformed =>
      obtain ⟨rfl, rfl⟩ := List.cons.inj (pending.symm.trans also)
      rw [Except.error.inj (alsoPerformed.symm.trans performed)]
  | step also alsoPerformed _ =>
      obtain ⟨rfl, rfl⟩ := List.cons.inj (pending.symm.trans also)
      rw [performed] at alsoPerformed
      contradiction

theorem Ends.exists_later
    (ends : Ends net mode search outcome steps) (pending : search.pending = task :: rest)
    (performed : perform net mode search task rest = .ok next) :
    ∃ fewer, steps = fewer + 1 ∧ Ends net mode next outcome fewer := by
  cases ends with
  | done idle =>
      rw [pending] at idle
      contradiction
  | failed also alsoPerformed =>
      obtain ⟨rfl, rfl⟩ := List.cons.inj (pending.symm.trans also)
      rw [performed] at alsoPerformed
      contradiction
  | step also alsoPerformed later =>
      obtain ⟨rfl, rfl⟩ := List.cons.inj (pending.symm.trans also)
      rw [performed] at alsoPerformed
      obtain rfl := Except.ok.inj alsoPerformed
      exact ⟨_, rfl, later⟩

end Ends

/-! ## Calls and configurations -/

/-- The call is for the configuration, and those of the called rules that the network knows are the ones entered. -/
structure Matches (net : Network) (call : Call) (called : Finset Int) (config : Config) : Prop where
  state : call.state = config.state
  stack : call.stack = config.stack
  called : ∀ rule ∈ net.rules, rule ∈ called ↔ rule ∈ config.entered
  nodup : config.entered.Nodup

section Matches

variable {net : Network} {call : Call} {called : Finset Int} {config : Config}

theorem Matches.passed (same : Matches net call called config) (target : StateId) :
    Matches net { call with state := some target } called { config with state := some target } :=
  ⟨rfl, same.stack, same.called, same.nodup⟩

theorem Matches.entered
    (same : Matches net call called config) {target : StateId} (fresh : (net.state target).rule ∉ config.entered)
    (number : Int) (pushed : List (Int × Int)) :
    Matches net ⟨some target, call.stack.push number, pushed⟩ (insert (net.state target).rule called)
      ⟨some target, config.stack.push number, (net.state target).rule :: config.entered⟩ where
  state := rfl
  stack := by rw [same.stack]
  called := by
    intro rule known
    rw [Finset.mem_insert, List.mem_cons, same.called rule known]
  nodup := List.nodup_cons.mpr ⟨fresh, same.nodup⟩

theorem Matches.returned
    (same : Matches net call called config) (next : Option StateId) (outer : CallStack) (pushed : List (Int × Int))
    (rule : Int) : Matches net ⟨next, outer, pushed⟩ (called.erase rule) ⟨next, outer, config.entered.erase rule⟩ where
  state := rfl
  stack := rfl
  called := by
    intro other known
    rw [Finset.mem_erase, same.nodup.mem_erase_iff, same.called other known]
  nodup := same.nodup.erase rule

end Matches

/-! ## What calls do -/

/-- What has run did the tasks before `rest` of a search that ends with `outcome`: what it left is to do in fewer tasks than
`bound`, or the search fails in the same way. -/
inductive Mirrors (net : Network) (mode : SearchMode) (rest : List Task) (outcome : Except Fault RangeSet) (bound : Nat) :
    Except Abort Unit × Shared → Prop
  | done {left : Shared} {steps : Nat} (few : steps < bound) (ends : Ends net mode (left.search rest) outcome steps) :
      Mirrors net mode rest outcome bound (.ok (), left)
  | failed {left : Shared} {fault : Fault} (same : outcome = .error fault) :
      Mirrors net mode rest outcome bound (.error (.fault fault), left)

/-- A call does what visiting a configuration that it matches leads to, if no more than `bound` tasks are left. -/
def MirrorsUpTo (net : Network) (mode : SearchMode) (bound : Nat) (recurse : Call → SharedM Unit) : Prop :=
  ∀ (now : Shared) {call : Call} {config : Config} {rest : List Task} {outcome : Except Fault RangeSet} {steps : Nat},
    Matches net call now.called config → Ends net mode (now.search (.visit config :: rest)) outcome steps →
      steps ≤ bound → Mirrors net mode rest outcome steps ((recurse call).runOn now)

section Mirrors

variable {net : Network} {mode : SearchMode} {rest : List Task} {outcome : Except Fault RangeSet} {steps bound : Nat}
  {call : Call} {now : Shared} {config : Config} {id : StateId} {t : Transition} {recurse : Call → SharedM Unit}

theorem Mirrors.mono {more : Nat} {ran : Except Abort Unit × Shared} (mirrors : Mirrors net mode rest outcome bound ran)
    (le : bound ≤ more) : Mirrors net mode rest outcome more ran := by
  cases mirrors with
  | done few ends => exact .done (Nat.lt_of_lt_of_le few le) ends
  | failed same => exact .failed same

theorem mirrors_of_failed
    {fault : Fault} {ran : Except Abort Unit × Shared} (same : outcome = .error fault)
    (failed : ran.1 = .error (.fault fault)) : Mirrors net mode rest outcome bound ran := by
  obtain ⟨result, left⟩ := ran
  obtain rfl : result = .error (.fault fault) := failed
  exact .failed same

/-- What is called afterwards does not show in the search. -/
theorem Mirrors.recall
    {result : Except Abort Unit} {left : Shared} (mirrors : Mirrors net mode rest outcome bound (result, left))
    (called : Finset Int) : Mirrors net mode rest outcome bound (result, { left with called := called }) := by
  cases mirrors with
  | done few ends => exact .done few ends
  | failed same => exact .failed same

theorem mirrors_find
    {f : RangeSet → RangeSet} {task : Task} (ends : Ends net mode (now.search (task :: rest)) outcome steps)
    (performed : perform net mode (now.search (task :: rest)) task rest =
      .ok (Shared.search { now with found := f now.found } rest)) :
    Mirrors net mode rest outcome steps ((find f).runOn now) := by
  obtain ⟨fewer, rfl, later⟩ := ends.exists_later rfl performed
  exact .done (Nat.lt_succ_self fewer) later

/-- Going along a transition does the task to which it leads. -/
theorem mirrors_along
    (recurses : MirrorsUpTo net mode bound recurse) (keeps : ∀ next called, Keeps (fun _ _ => True) called (recurse next))
    (same : Matches net call now.called config)
    (ends : Ends net mode (now.search (follow net mode (net.state id) config t ++ rest)) outcome steps)
    (few : steps ≤ bound) :
    Mirrors net mode rest outcome (steps + 1) ((along net mode recurse (net.state id) call t).runOn now) := by
  have passed : Ends net mode (now.search (.visit { config with state := some t.target } :: rest)) outcome steps →
      Mirrors net mode rest outcome (steps + 1) ((recurse { call with state := some t.target }).runOn now) := fun ends =>
    (recurses now (same.passed t.target) ends few).mono (Nat.le_succ steps)
  obtain ⟨target, kind⟩ := t
  cases kind with
  | rule index precedence next =>
      have known := same.called _ (net.rule_mem_rules target)
      simp only [along, runOn_bind, runOn_shared]
      by_cases called : (net.state target).rule ∈ now.called
      · simp only [follow, known.mp called, if_true, List.nil_append] at ends
        simp only [called, if_true, runOn_pure]
        exact .done (Nat.lt_succ_self steps) ends
      · have fresh : (net.state target).rule ∉ config.entered := fun entered => called (known.mpr entered)
        simp only [follow, fresh, if_false] at ends
        have mirrors := recurses { now with called := insert (net.state target).rule now.called }
          (same.entered fresh (net.state id).number (((net.state id).number, (net.state target).rule) :: call.pushed))
          ends few
        obtain ⟨stays, _⟩ := keeps
          ⟨some target, call.stack.push (net.state id).number,
            ((net.state id).number, (net.state target).rule) :: call.pushed⟩
          _ { now with called := insert (net.state target).rule now.called } rfl
        simp only [called, if_false, runOn_finally, runOn_bind, runOn_add]
        generalize (recurse _).runOn _ = ran at mirrors stays ⊢
        obtain ⟨result, left⟩ := ran
        simp only at stays
        have there : (net.state target).rule ∈ left.called := by
          rw [stays]
          exact Finset.mem_insert_self _ _
        rw [runOn_remove there]
        exact (mirrors.recall _).mono (Nat.le_succ steps)
  | abstractPredicate | predicate | precedence =>
      simp only [follow] at ends
      simp only [along]
      split
      next through =>
        simp only [through, if_true] at ends
        exact passed ends
      next blocked =>
        simp only [blocked] at ends
        exact (mirrors_find ends rfl).mono (Nat.le_succ steps)
  | epsilon | action => exact passed ends
  | plain | atom | range | set | notSet | wildcard =>
      simp only [follow] at ends
      simp only [along, runOn_bind, runOn_pass]
      cases offered : TransitionKind.offer _ net.maxSymbol with
      | error fault => exact .failed (ends.eq_error rfl (by simp only [perform, offered]; rfl))
      | ok offer => exact (mirrors_find ends (perform_consume_of_ok offered)).mono (Nat.le_succ steps)

/-- Going along the transitions of a state does the tasks to which they lead, one after the other. -/
theorem mirrors_forM
    (recurses : MirrorsUpTo net mode bound recurse) (keeps : ∀ next called, Keeps (fun _ _ => True) called (recurse next))
    (state : call.state = some id) (passable : net.Passable mode ⟨id, call.stack⟩) {transitions : List Transition}
    (leave : ∀ t ∈ transitions, t ∈ (net.state id).transitions) (same : Matches net call now.called config)
    (ends : Ends net mode (now.search (transitions.flatMap (follow net mode (net.state id) config) ++ rest)) outcome steps)
    (few : steps ≤ bound) :
    Mirrors net mode rest outcome (steps + 1)
      ((transitions.forM (along net mode recurse (net.state id) call)).runOn now) := by
  induction transitions generalizing now steps with
  | nil => exact .done (Nat.lt_succ_self steps) ends
  | cons t others inductionHypothesis =>
      obtain ⟨first, later⟩ := List.forall_mem_cons.mp leave
      rw [List.flatMap_cons, List.append_assoc] at ends
      have mirrors := mirrors_along recurses keeps same ends few
      -- The called rules are the same for each of the transitions.
      obtain ⟨stays, _⟩ := keeps_along (P := fun _ _ => True) (fun {next later} _ => keeps next later) state passable first
        now rfl
      show Mirrors net mode rest outcome (steps + 1)
        ((along net mode recurse (net.state id) call t >>= fun _ => others.forM _).runOn now)
      rw [runOn_bind]
      generalize (along net mode recurse (net.state id) call t).runOn now = ran at mirrors stays ⊢
      cases mirrors with
      | done fewer ends =>
          rw [← stays] at same
          exact (inductionHypothesis later same ends (by omega)).mono (by omega)
      | failed same => exact .failed same

/-- Popping a link does what the return from its rule leads to. -/
theorem mirrors_back
    (recurses : MirrorsUpTo net mode bound recurse) (same : Matches net call now.called config) {link : Int}
    {outer : CallStack} {next : Option StateId} (followed : net.followState link = .ok next)
    (ends : Ends net mode (now.search (.visit ⟨next, outer, config.entered.erase (net.state id).rule⟩ :: rest)) outcome
      steps)
    (few : steps ≤ bound) :
    Mirrors net mode rest outcome steps ((back net recurse (net.state id) call link outer).runOn now) := by
  have mirrors := recurses { now with called := now.called.erase (net.state id).rule }
    (same.returned next outer call.pushed.tail (net.state id).rule) ends few
  simp only [back, followed, runOn_bind, runOn_shared, runOn_finally, runOn_discard, runOn_pass, Except.mapError,
    runOn_addAgain]
  exact mirrors.recall _

/-- A call that has not been made before does what its expansion lists. -/
theorem mirrors_body
    (now : Shared) (recurses : MirrorsUpTo net mode bound recurse)
    (keeps : ∀ next called, Keeps (fun _ _ => True) called (recurse next))
    (state : call.state = some id) (same : Matches net call now.called config) {tasks : List Task}
    (expanded : expand net mode id config = .ok tasks)
    (ends : Ends net mode (now.search (tasks ++ rest)) outcome steps) (few : steps ≤ bound) :
    Mirrors net mode rest outcome (steps + 1) ((body net mode recurse id call).runOn now) := by
  have stack := same.stack
  rcases halts_or_returns_or_passable net mode ⟨id, call.stack⟩ with
    ⟨mark, halts⟩ | ⟨link, outer, chain, invoked, stops⟩ | passable
  · rw [expand_of_halts (stack ▸ halts)] at expanded
    obtain rfl := Except.ok.inj expanded
    rw [body_of_halts halts]
    exact (mirrors_find ends rfl).mono (Nat.le_succ steps)
  · rw [expand_of_returns (stack.symm.trans chain) invoked stops] at expanded
    cases followed : net.followState link with
    | error fault =>
        rw [followed] at expanded
        contradiction
    | ok next =>
        rw [followed] at expanded
        obtain rfl := Except.ok.inj expanded
        rw [body_of_returns chain invoked stops]
        exact (mirrors_back recurses same followed ends few).mono (Nat.le_succ steps)
  · rw [expand_of_passable (stack ▸ passable)] at expanded
    obtain rfl := Except.ok.inj expanded
    rw [body_of_passable passable]
    exact mirrors_forM recurses keeps state passable (fun _ member => member) same ends few

/-- A call that cannot be expanded ends with the same fault. -/
theorem runOn_body_of_error
    (stack : call.stack = config.stack) {fault : Fault} (refused : expand net mode id config = .error fault) :
    ((body net mode recurse id call).runOn now).1 = .error (.fault fault) := by
  obtain ⟨link, outer, chain, invoked, stops, failed⟩ := expand_error_iff.mp refused
  rw [body_of_returns (stack.trans chain) invoked stops]
  simp only [back, failed, runOn_bind, runOn_shared, runOn_finally, runOn_discard, runOn_pass, Except.mapError,
    runOn_addAgain]

theorem mirrors_enter
    (recurses : MirrorsUpTo net mode bound recurse)
    (keeps : ∀ next called, Keeps (fun _ _ => True) called (recurse next)) :
    MirrorsUpTo net mode (bound + 1) (enter net mode recurse) := by
  intro now call config rest outcome steps same ends few
  simp only [enter, runOn_bind, runOn_change, runOn_pass]
  rw [same.state]
  cases state : config.state with
  | none => exact .failed (ends.eq_error rfl (by simp only [perform, state]))
  | some id =>
      simp only [required, Except.mapError, runOn_shared]
      rw [same.stack]
      by_cases seen : ((net.state id).number, config.stack) ∈ now.visited
      · obtain ⟨fewer, rfl, later⟩ := ends.exists_later rfl (perform_visit_of_mem state seen)
        simp only [seen, if_true, runOn_pure]
        exact .done (Nat.lt_succ_self fewer) later
      · simp only [seen, if_false, runOn_bind, runOn_change]
        cases expanded : expand net mode id config with
        | error fault =>
            have ended := ends.eq_error rfl (perform_visit_of_error state seen expanded)
            exact mirrors_of_failed ended (runOn_body_of_error same.stack expanded)
        | ok tasks =>
            obtain ⟨fewer, rfl, later⟩ := ends.exists_later rfl (perform_visit_of_not_mem state seen expanded)
            exact mirrors_body _ recurses keeps (same.state.trans state) same expanded later (by omega)

theorem mirrors_descend (net : Network) (mode : SearchMode) (depth : Nat) :
    MirrorsUpTo net mode depth (descend net mode depth) := by
  induction depth with
  | zero =>
      intro now call config rest outcome steps _ ends few
      cases ends with
      | done idle => contradiction
      | failed | step => omega
  | succ depth inductionHypothesis =>
      apply mirrors_enter inductionHypothesis
      exact fun next called => keeps_descend (fun _ _ => trivial) depth trivial

end Mirrors

/-! ## Deep enough -/

section Deep

variable {net : Network} {mode : SearchMode}

/-- A call has a configuration that it matches and from which a search is within bounds. -/
theorem exists_matches (net : Network) (call : Call) (called : Finset Int) :
    ∃ config, Matches net call called config ∧ config.Within net call.stack := by
  let known : Finset Int := called.filter (· ∈ net.rules)
  refine ⟨⟨call.state, call.stack, known.toList⟩, ⟨rfl, rfl, ?_, known.nodup_toList⟩, ?_⟩
  · intro rule inRules
    rw [Finset.mem_toList, Finset.mem_filter, and_iff_left inRules]
  · constructor
    · exact fun link member => List.mem_append_right net.numbers member
    · exact known.nodup_toList
    · exact fun rule member => (Finset.mem_filter.mp (Finset.mem_toList.mp member)).2
    · exact Nat.le_add_right _ _

/-- Whatever is shared when a call begins, it ends by itself if calls may be nested deeply enough. -/
theorem exists_descend_ne_tooDeep (net : Network) (mode : SearchMode) (call : Call) (now : Shared) :
    ∃ enough, ∀ depth, enough ≤ depth → ((descend net mode depth call).runOn now).1 ≠ .error .tooDeep := by
  obtain ⟨config, same, within⟩ := exists_matches net call now.called
  have inside : (now.search [.visit config]).Within net call.stack := by
    intro task member
    rw [List.mem_singleton.mp member]
    exact within
  obtain ⟨outcome, steps, ends, _⟩ := @exists_ends net mode call.stack _ inside
  refine ⟨steps, fun depth enough tooDeep => ?_⟩
  have mirrors := mirrors_descend net mode depth now same ends enough
  generalize (descend net mode depth call).runOn now = ran at mirrors tooDeep
  cases mirrors with
  | done => exact nomatch tooDeep
  | failed => exact nomatch Except.error.inj tooDeep

/-- A call that begins without anything yields what the search does. -/
theorem exists_descend_eq (net : Network) (mode : SearchMode) (state : Option StateId) (stack : CallStack) :
    ∃ enough, ∀ depth, enough ≤ depth →
      Shared.yielded ((descend net mode depth ⟨state, stack, []⟩).runOn {}) =
        (net.lookahead mode state stack).mapError .fault := by
  obtain ⟨steps, ends, _⟩ := ends_lookahead net mode state stack
  refine ⟨steps, fun depth enough => ?_⟩
  have same : Matches net ⟨state, stack, []⟩ (∅ : Finset Int) ⟨state, stack, []⟩ :=
    ⟨rfl, rfl, fun rule _ => by simp, List.nodup_nil⟩
  have mirrors := mirrors_descend net mode depth {} same ends enough
  generalize (descend net mode depth ⟨state, stack, []⟩).runOn {} = ran at mirrors ⊢
  generalize net.lookahead mode state stack = outcome at mirrors ⊢
  cases mirrors with
  | done _ later =>
      cases later with
      | done => rfl
      | failed pending | step pending => contradiction
  | failed failed =>
      rw [failed]
      rfl

end Deep

end Search

end GrammarNet
