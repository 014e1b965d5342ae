import GrammarNet.Proofs.Search.Sound

/-!
# Searches lose nothing

A search drops a configuration that it has visited before, and an invocation of a rule that the path has entered. It
loses nothing by the first, since what the earlier visit led to is done or pending. It loses nothing by the second if no
rule can both come back to itself and match nothing: whatever the repeated invocation would show, it shows without
returning, and the entry of the rule that is already on the path shows it as well.
-/

namespace GrammarNet

/-! ## Facts that do not look deep into a chain -/

/-- Whether the point has the property depends on the innermost link alone, and unless a rule stops at the point only
on whether this link is an invocation. -/
structure Shallow (net : Network) (P : Point → Prop) : Prop where
  outer : ∀ {id : StateId} {link : Int} {outer other : CallStack}, P ⟨id, link :: outer⟩ → P ⟨id, link :: other⟩
  link : ∀ {id : StateId} {link other : Int} {outer : CallStack}, 0 ≤ link → 0 ≤ other →
    (net.state id).isRuleStop = false → P ⟨id, link :: outer⟩ → P ⟨id, other :: outer⟩

section Shallow

variable {net : Network} {mode : SearchMode}

theorem Shallow.replace
    {P : Point → Prop} (shallow : Shallow net P) {id : StateId} {above outer other : CallStack} {link replaced : Int}
    (nonneg : 0 ≤ link) (alsoNonneg : 0 ≤ replaced) (goesOn : above = [] → (net.state id).isRuleStop = false)
    (holds : P ⟨id, above ++ link :: outer⟩) : P ⟨id, above ++ replaced :: other⟩ := by
  cases above with
  | nil => exact shallow.outer (shallow.link nonneg alsoNonneg (goesOn rfl) holds)
  | cons innermost rest => exact shallow.outer holds

theorem shallow_emits (x : Symbol) : Shallow net fun p => net.Emits mode p x where
  outer := by
    intro id link outer other emits
    generalize start : (⟨id, link :: outer⟩ : Point) = p at emits
    cases emits with
    | halt halts =>
        subst start
        exact .halt halts
    | consume passable member yields =>
        subst start
        exact .consume (p := ⟨id, link :: other⟩) passable member yields
    | hit passable member predicate blocked =>
        subst start
        exact .hit (p := ⟨id, link :: other⟩) passable member predicate blocked
  link := by
    intro id link replaced outer nonneg alsoNonneg goesOn emits
    have passable : net.Passable mode ⟨id, replaced :: outer⟩ := (Network.passable_invoked_iff alsoNonneg).mpr goesOn
    generalize start : (⟨id, link :: outer⟩ : Point) = p at emits
    cases emits with
    | halt halts =>
        subst start
        exact absurd halts (Network.not_halts_invoked nonneg)
    | consume _ member yields =>
        subst start
        exact .consume (p := ⟨id, replaced :: outer⟩) passable member yields
    | hit _ member predicate blocked =>
        subst start
        exact .hit (p := ⟨id, replaced :: outer⟩) passable member predicate blocked

theorem shallow_fails (fault : Fault) : Shallow net fun p => net.Fails p fault where
  outer := by
    rintro id link outer other ⟨innermost, rest, stack, nonneg, stops, failed⟩
    injection stack with sameLink _
    subst sameLink
    exact ⟨_, other, rfl, nonneg, stops, failed⟩
  link := by
    rintro id link replaced outer _ _ goesOn ⟨innermost, rest, stack, nonneg, stops, failed⟩
    rw [goesOn] at stops
    exact Bool.noConfusion stops

end Shallow

namespace Search

/-! ## Rules that a path has entered -/

/-- Some transition invokes the rule at `entry`. -/
def EntryOf (net : Network) (rule : Int) (entry : StateId) : Prop :=
  ∃ source ∈ net.listed, ∃ t ∈ (net.state source).transitions, t.isRule = true ∧ t.target = entry ∧
    (net.state entry).rule = rule

/-- The rule was entered on the way to the point, by an invocation that has not returned, at an entry that was seen
under the chain of that invocation. -/
inductive Anchored (net : Network) (seen : Point → Prop) (rule : Int) (p : Point) : Prop
  | intro {entry : StateId} {above outer : CallStack} {link : Int} (stack : p.stack = above ++ link :: outer)
      (invoked : above.Invoked) (nonneg : 0 ≤ link) (entered : EntryOf net rule entry)
      (seen : seen ⟨entry, link :: outer⟩) (reaches : net.Reaches {} ⟨entry, []⟩ ⟨p.state, above⟩)

section Anchored

variable {net : Network} {mode : SearchMode} {seen other : Point → Prop} {rule : Int} {p : Point} {id target : StateId}
  {config next : Config}

theorem EntryOf.ruleStart (shape : net.WellFormed) {entry : StateId} (entered : EntryOf net rule entry) :
    entry ∈ net.listed ∧ (net.state entry).kind = .ruleStart ∧ (net.state entry).rule = rule := by
  obtain ⟨source, listed, t, member, invokes, rfl, same⟩ := entered
  exact ⟨(shape.targets source listed t member).1, (shape.invocations source listed t member invokes).2, same⟩

theorem EntryOf.inside (shape : net.WellFormed) {entry : StateId} (entered : EntryOf net rule entry) :
    Network.WellFormed.Inside net entry := by
  obtain ⟨listed, kind, _⟩ := entered.ruleStart shape
  exact ⟨listed, by rw [kind]; exact StateKind.noConfusion⟩

theorem Anchored.mono (anchored : Anchored net seen rule p) (implies : ∀ {q : Point}, seen q → other q) :
    Anchored net other rule p := by
  obtain ⟨stack, invoked, nonneg, entered, sees, reaches⟩ := anchored
  exact .intro stack invoked nonneg entered (implies sees) reaches

/-- A rule that is entered after a task was so before, or the task enters it. -/
theorem entered_of_leads
    (leads : Leads net mode id config (.visit next)) (member : rule ∈ next.entered) :
    rule ∈ config.entered ∨ ∃ t ∈ (net.state id).transitions, t.isRule = true ∧ (net.state t.target).rule = rule ∧
      next.state = some t.target ∧ next.stack = config.stack.push (net.state id).number := by
  cases leads with
  | returned _ _ _ _ => exact Or.inl (List.mem_of_mem_erase member)
  | followed _ inState followed =>
      cases followed with
      | passed _ => exact Or.inl member
      | entered invokes _ =>
          rcases List.mem_cons.mp member with rfl | earlier
          · exact Or.inr ⟨_, inState, invokes, rfl, rfl, rfl⟩
          · exact Or.inl earlier

/-- What returns from a rule is no longer within it. -/
theorem not_mem_entered_of_leads
    (leads : Leads net mode id config (.visit next)) (nodup : config.entered.Nodup) {link : Int} {outer : CallStack}
    (stack : config.stack = link :: outer) (nonneg : 0 ≤ link) (stops : (net.state id).isRuleStop = true) :
    (net.state id).rule ∉ next.entered := by
  cases leads with
  | returned _ _ _ _ => exact nodup.not_mem_erase
  | followed passable _ _ =>
      rw [stack] at passable
      exact absurd passable (Network.not_passable_invoked nonneg stops)

/-- The anchors of the rules that a path has entered stay where they are; the entry of a new one is the point that is
visited next. -/
theorem anchored_of_leads
    (shape : net.WellFormed) (listed : id ∈ net.listed) (nodup : config.entered.Nodup)
    (anchored : ∀ rule ∈ config.entered, Anchored net seen rule ⟨id, config.stack⟩)
    (leads : Leads net mode id config (.visit next)) (state : next.state = some target)
    (member : rule ∈ next.entered) :
    Anchored net (fun q => seen q ∨ q = ⟨target, next.stack⟩) rule ⟨target, next.stack⟩ := by
  obtain ⟨same, sameState, move⟩ := leads.move shape
  rw [state] at sameState
  obtain rfl := Option.some.inj sameState
  rcases entered_of_leads leads member with before | ⟨t, inState, invokes, sameRule, goal, push⟩
  · obtain ⟨stack, invoked, nonneg, entered, sees, reaches⟩ := anchored rule before
    simp only at stack reaches
    rw [stack] at move
    rcases Network.lower_move invoked move with ⟨rest, restStack, inner⟩ | ⟨bare, stops⟩
    · have restInvoked : CallStack.Invoked rest := Network.invoked_of_move shape listed invoked inner
      exact .intro restStack restInvoked nonneg entered (Or.inl sees) (reaches.append (Network.widen_move inner))
    · -- The rule that stops here is the one that was entered, and it is left.
      subst bare
      have sameRule := shape.rule_eq_of_reaches (entered.inside shape) reaches
      rw [(entered.ruleStart shape).2.2] at sameRule
      exact absurd (sameRule ▸ member) (not_mem_entered_of_leads leads nodup stack nonneg stops)
  · rw [state] at goal
    obtain rfl := Option.some.inj goal
    have stack : next.stack = [] ++ (net.state id).number :: config.stack := push
    exact .intro stack CallStack.invoked_nil (shape.nonneg_number listed)
      ⟨id, listed, t, inState, invokes, rfl, sameRule⟩ (Or.inr (by rw [push]; rfl)) (.refl _)

end Anchored

/-! ## What a search has done -/

/-- The search has visited the point. -/
def Visits (net : Network) (search : Search) (p : Point) : Prop :=
  ((net.state p.state).number, p.stack) ∈ search.visited

/-- Nothing is left to do for the task. -/
def Done (net : Network) (search : Search) : Task → Prop
  | .visit config => ∃ id, config.state = some id ∧ search.Visits net ⟨id, config.stack⟩
  | .report x => x ∈ search.found
  | .consume kind => ∀ x, kind.Yields net.maxSymbol x → x ∈ search.found

/-- The configuration was expanded at the state: what it leads to is pending or done. -/
structure Record (net : Network) (mode : SearchMode) (search : Search) (id : StateId) (config : Config) : Prop where
  listed : id ∈ net.listed
  anchored : ∀ rule ∈ config.entered, Anchored net (search.Visits net) rule ⟨id, config.stack⟩
  tasks : ∀ task, Leads net mode id config task → task ∈ search.pending ∨ search.Done net task
  goesOn : ∀ fault, ¬ net.Fails ⟨id, config.stack⟩ fault

/-- Everything that was visited was expanded, and so will be everything that is pending. -/
structure Explored (net : Network) (mode : SearchMode) (origin : Point) (search : Search) : Prop where
  pending : ∀ config, .visit config ∈ search.pending → ∃ id, config.state = some id ∧ id ∈ net.listed ∧
    config.entered.Nodup ∧ ∀ rule ∈ config.entered,
      Anchored net (fun q => search.Visits net q ∨ q = ⟨id, config.stack⟩) rule ⟨id, config.stack⟩
  visited : ∀ key ∈ search.visited, ∃ id config, key = ((net.state id).number, config.stack) ∧
    Record net mode search id config
  origin : search.Visits net origin ∨ ∃ config, .visit config ∈ search.pending ∧
    config.state = some origin.state ∧ config.stack = origin.stack

section Explored

variable {net : Network} {mode : SearchMode} {P : Range → Prop} {origin p r : Point} {search next : Search} {task : Task}
  {rest : List Task} {steps : Nat} {x : Symbol}

theorem Performed.visited_subset
    (performed : Performed net mode search rest task next) {key : VisitKey} (member : key ∈ search.visited) :
    key ∈ next.visited := by
  cases performed with
  | reported | consumed | passed => exact member
  | expanded => exact Std.HashSet.mem_insert.mpr (Or.inr member)

theorem Performed.pending_subset
    (performed : Performed net mode search rest task next) {later : Task} (member : later ∈ rest) :
    later ∈ next.pending := by
  cases performed with
  | reported | consumed | passed => exact member
  | expanded => exact List.mem_append_right _ member

theorem Performed.found_subset
    (admits : Admits P) (sound : search.Sound net mode P origin) (pending : search.pending = task :: rest)
    (performed : Performed net mode search rest task next) {x : Symbol} (member : x ∈ search.found) :
    x ∈ next.found := by
  have here : task.Sound net mode P origin := sound.tasks task (pending ▸ List.mem_cons_self)
  cases performed with
  | reported y => exact sound.kept.ascending.mem_insert.mpr (Or.inr member)
  | consumed offered =>
      obtain ⟨ranges, _⟩ := TransitionKind.Labelled.of_offer admits here.1 offered
      have upright := fun r inside => admits.upright (ranges r inside)
      exact (sound.kept.ascending.mem_union upright).mpr (Or.inl member)
  | passed | expanded => exact member

/-- The task that is performed is done afterwards. -/
theorem Performed.done
    (admits : Admits P) (sound : search.Sound net mode P origin) (pending : search.pending = task :: rest)
    (performed : Performed net mode search rest task next) : next.Done net task := by
  have here : task.Sound net mode P origin := sound.tasks task (pending ▸ List.mem_cons_self)
  cases performed with
  | reported x => exact sound.kept.ascending.mem_insert.mpr (Or.inl rfl)
  | consumed offered =>
      obtain ⟨ranges, yields⟩ := TransitionKind.Labelled.of_offer admits here.1 offered
      have upright := fun r inside => admits.upright (ranges r inside)
      intro x yielded
      exact (sound.kept.ascending.mem_union upright).mpr (Or.inr ((yields x).mpr yielded))
  | passed state seen => exact ⟨_, state, seen⟩
  | expanded state _ _ => exact ⟨_, state, Std.HashSet.mem_insert_self⟩

/-- What was pending is pending still or done now, and what was done stays done. -/
theorem Performed.settles
    (admits : Admits P) (sound : search.Sound net mode P origin) (pending : search.pending = task :: rest)
    (performed : Performed net mode search rest task next) {other : Task}
    (before : other ∈ search.pending ∨ search.Done net other) : other ∈ next.pending ∨ next.Done net other := by
  rcases before with member | done
  · rw [pending] at member
    rcases List.mem_cons.mp member with rfl | later
    · exact Or.inr (performed.done admits sound pending)
    · exact Or.inl (performed.pending_subset later)
  · refine Or.inr ?_
    cases other with
    | visit config =>
        obtain ⟨id, state, visits⟩ := done
        exact ⟨id, state, performed.visited_subset visits⟩
    | report x => exact performed.found_subset admits sound pending done
    | consume kind => exact fun x yielded => performed.found_subset admits sound pending (done x yielded)

theorem Record.performed
    {id : StateId} {config : Config} (admits : Admits P) (sound : search.Sound net mode P origin)
    (record : Record net mode search id config) (pending : search.pending = task :: rest)
    (performed : Performed net mode search rest task next) : Record net mode next id config where
  listed := record.listed
  anchored := fun rule entered => (record.anchored rule entered).mono performed.visited_subset
  tasks := fun other leads => performed.settles admits sound pending (record.tasks other leads)
  goesOn := record.goesOn

theorem explored_start {start : StateId} {stack : CallStack} (listed : start ∈ net.listed) :
    Explored net mode ⟨start, stack⟩ (Search.start (some start) stack) where
  pending := by
    intro config member
    injection List.mem_singleton.mp member with same
    subst same
    exact ⟨start, rfl, listed, List.nodup_nil, by simp⟩
  visited := fun key member => absurd member Std.HashSet.not_mem_empty
  origin := Or.inr ⟨_, List.mem_singleton.mpr rfl, rfl, rfl⟩

/-- What a task leaves behind is explored if the search was. -/
theorem Explored.performed
    (shape : net.WellFormed) (admits : Admits P) (sound : search.Sound net mode P origin)
    (explored : search.Explored net mode origin) (pending : search.pending = task :: rest)
    (performed : Performed net mode search rest task next) : next.Explored net mode origin := by
  have old : ∀ config, .visit config ∈ rest → ∃ id, config.state = some id ∧ id ∈ net.listed ∧
      config.entered.Nodup ∧ ∀ rule ∈ config.entered,
        Anchored net (fun q => next.Visits net q ∨ q = ⟨id, config.stack⟩) rule ⟨id, config.stack⟩ := by
    intro config member
    obtain ⟨id, state, listed, nodup, anchored⟩ :=
      explored.pending config (pending ▸ List.mem_cons_of_mem task member)
    exact ⟨id, state, listed, nodup, fun rule entered =>
      (anchored rule entered).mono (Or.imp_left performed.visited_subset)⟩
  have carried : ∀ key ∈ search.visited, ∃ id config, key = ((net.state id).number, config.stack) ∧
      Record net mode next id config := by
    intro key member
    obtain ⟨id, config, same, record⟩ := explored.visited key member
    exact ⟨id, config, same, record.performed admits sound pending performed⟩
  have origin : next.Visits net origin ∨ ∃ config, .visit config ∈ next.pending ∧
      config.state = some origin.state ∧ config.stack = origin.stack := by
    rcases explored.origin with visits | ⟨config, member, state, stack⟩
    · exact Or.inl (performed.visited_subset visits)
    · rcases performed.settles admits sound pending (Or.inl member) with later | ⟨id, sameState, visits⟩
      · exact Or.inr ⟨config, later, state, stack⟩
      · rw [state] at sameState
        obtain rfl := Option.some.inj sameState
        rw [stack] at visits
        exact Or.inl visits
  cases performed with
  | reported | consumed | passed => exact ⟨old, carried, origin⟩
  | @expanded config id tasks state fresh expanded =>
      obtain ⟨same, sameState, listed, nodup, anchored⟩ :=
        explored.pending config (pending ▸ List.mem_cons_self)
      rw [state] at sameState
      obtain rfl := Option.some.inj sameState
      -- The point itself, which anchored its newest rule, is among the visited ones from here on.
      have here : ∀ {p : Point}, search.Visits net p ∨ p = ⟨id, config.stack⟩ →
          ((net.state p.state).number, p.stack) ∈ search.visited.insert ((net.state id).number, config.stack) := by
        rintro p (visits | rfl)
        · exact Std.HashSet.mem_insert.mpr (Or.inr visits)
        · exact Std.HashSet.mem_insert_self
      refine ⟨fun other member => ?_, fun key member => ?_, origin⟩
      · rcases List.mem_append.mp member with child | later
        · have leads := (mem_expand_iff expanded).mp child
          obtain ⟨target, targetState, move⟩ := leads.move shape
          refine ⟨target, targetState, (shape.inside_of_move listed move).1, leads.nodup_entered nodup,
            fun rule entered => ?_⟩
          have along := anchored_of_leads shape listed nodup anchored leads targetState entered
          exact along.mono (Or.imp_left here)
        · exact old other later
      · rcases Std.HashSet.mem_insert.mp member with new | before
        · refine ⟨id, config, (eq_of_beq new).symm, listed, fun rule entered => ?_, fun task leads => ?_,
            fun fault fails => ?_⟩
          · exact (anchored rule entered).mono here
          · exact Or.inl (List.mem_append_left _ ((mem_expand_iff expanded).mpr leads))
          · rw [expand_error_iff.mpr fails] at expanded
            contradiction
        · exact carried key before

/-! ## What is shown is found -/

theorem Record.done
    {id : StateId} {config : Config} (record : Record net mode search id config) (idle : search.pending = [])
    (leads : Leads net mode id config task) : search.Done net task := by
  rcases record.tasks task leads with pending | done
  · rw [idle] at pending
    exact absurd pending List.not_mem_nil
  · exact done

theorem Explored.record
    (shape : net.WellFormed) (explored : search.Explored net mode origin) (listed : p.state ∈ net.listed)
    (visits : search.Visits net p) : ∃ config, config.stack = p.stack ∧ Record net mode search p.state config := by
  obtain ⟨id, config, key, record⟩ := explored.visited _ visits
  injection key with number stack
  obtain same := shape.eq_of_number_eq listed record.listed number
  rw [← same] at record
  exact ⟨config, stack.symm, record⟩

/-- An invocation that is cut off invokes a rule that comes back to itself, at an entry that was visited before. -/
theorem Record.entry
    {id : StateId} {config : Config} {t : Transition} (shape : net.WellFormed) (single : net.SingleEntry)
    (record : Record net mode search id config) (member : t ∈ (net.state id).transitions)
    (invokes : t.isRule = true) (entered : (net.state t.target).rule ∈ config.entered) :
    ∃ link outer, 0 ≤ link ∧ search.Visits net ⟨t.target, link :: outer⟩ ∧
      EntryOf net (net.state t.target).rule t.target ∧ net.LeftRecursive (net.state t.target).rule := by
  obtain @⟨entry, above, outer, link, _, _, nonneg, entryOf, sees, reaches⟩ := record.anchored _ entered
  obtain ⟨entryListed, kind, sameRule⟩ := entryOf.ruleStart shape
  have recursive : net.LeftRecursive (net.state t.target).rule :=
    ⟨entry, entryListed, kind, sameRule, _, reaches, t, member, invokes, rfl⟩
  have sameEntry : t.target = entry := by
    obtain ⟨source, sourceListed, u, inSource, alsoInvokes, target, targetRule⟩ := entryOf
    rw [← target] at targetRule ⊢
    exact single id record.listed source sourceListed t member u inSource invokes alsoInvokes targetRule.symm recursive
  rw [← sameEntry] at entryOf sees
  exact ⟨link, outer, nonneg, sees, entryOf, recursive⟩

/-- What a path shows from an invocation of a rule that the path has entered, the entry that is already on the path
shows as well. -/
theorem Path.replay
    {P : Point → Prop} (shape : net.WellFormed) (guarded : net.Guarded) (shallow : Shallow net P) {rule : Int}
    {entry : StateId} (entered : EntryOf net rule entry) (recursive : net.LeftRecursive rule)
    {link invoker : Int} {outer base : CallStack} (nonneg : 0 ≤ link) (invokerNonneg : 0 ≤ invoker)
    (path : net.Path mode steps ⟨entry, invoker :: base⟩ r) (holds : P r) :
    ∃ q, net.Path mode steps ⟨entry, link :: outer⟩ q ∧ P q := by
  obtain ⟨listed, kind, sameRule⟩ := entered.ruleStart shape
  have never : ∀ {stop : StateId} {taken : Nat}, net.Path mode.inner taken ⟨entry, []⟩ ⟨stop, []⟩ →
      (net.state stop).isRuleStop = true → False := by
    intro stop taken inner stops
    have reaches : net.Reaches {} ⟨entry, []⟩ ⟨stop, []⟩ := ⟨taken, inner.widen⟩
    have stopRule := (shape.rule_eq_of_reaches (entered.inside shape) reaches).trans sameRule
    exact guarded rule ⟨recursive, entry, listed, kind, sameRule, stop, reaches, stops, stopRule⟩
  have bare : net.Path mode steps ⟨entry, [] ++ invoker :: base⟩ r := path
  obtain ⟨last, lastStack⟩ := r
  rcases bare.lower shape listed CallStack.invoked_nil with
    ⟨rest, stack, inner⟩ | ⟨stop, taken, left, stops, inner, _⟩
  · have lifted := Network.Path.lift shape listed CallStack.invoked_nil
      (Network.supports_of_invoked nonneg : net.Supports mode (link :: outer)) inner
    simp only at stack
    subst stack
    refine ⟨_, lifted, shallow.replace invokerNonneg nonneg (fun none => ?_) holds⟩
    subst none
    exact Bool.eq_false_iff.mpr fun stops => never inner stops
  · exact (never inner stops).elim

/-- What a path from a visited point shows was seen by a search that is done. -/
theorem Explored.exists_visited
    {P : Point → Prop} (shape : net.WellFormed) (guarded : net.Guarded) (single : net.SingleEntry)
    (shallow : Shallow net P) (explored : search.Explored net mode origin) (idle : search.pending = [])
    (listed : p.state ∈ net.listed) (visits : search.Visits net p) (path : net.Path mode steps p r) (holds : P r) :
    ∃ q, q.state ∈ net.listed ∧ search.Visits net q ∧ P q := by
  -- By induction on the length of the path: an invocation that was cut off is replaced by a shorter path.
  induction steps using Nat.strongRecOn generalizing p r with
  | ind steps inductionHypothesis =>
      cases path with
      | here => exact ⟨p, listed, visits, holds⟩
      | @step later _ next _ move path =>
          have nextListed := (shape.inside_of_move listed move).1
          obtain ⟨config, stack, record⟩ := explored.record shape listed visits
          obtain ⟨id, chain⟩ := p
          simp only at stack record
          subst stack
          rcases leads_of_move shape move with ⟨visited, leads, state, stack⟩ | ⟨t, member, invokes, entered, rfl⟩
          · obtain ⟨same, sameState, nextVisits⟩ := record.done idle leads
            rw [state] at sameState
            obtain rfl := Option.some.inj sameState
            rw [stack] at nextVisits
            exact inductionHypothesis later (Nat.lt_succ_self _) nextListed nextVisits path holds
          · obtain ⟨link, outer, nonneg, sees, entryOf, recursive⟩ :=
              record.entry shape single member invokes entered
            have entryListed := (entryOf.ruleStart shape).1
            obtain ⟨q, replayed, alsoHolds⟩ :=
              Path.replay shape guarded shallow entryOf recursive nonneg (shape.nonneg_number listed) path holds
            exact inductionHypothesis later (Nat.lt_succ_self _) entryListed sees replayed alsoHolds

theorem Explored.exists_record
    {P : Point → Prop} (shape : net.WellFormed) (guarded : net.Guarded) (single : net.SingleEntry)
    (shallow : Shallow net P) (explored : search.Explored net mode origin) (idle : search.pending = [])
    (listed : p.state ∈ net.listed) (visits : search.Visits net p) (path : net.Path mode steps p r) (holds : P r) :
    ∃ id config, Record net mode search id config ∧ P ⟨id, config.stack⟩ := by
  obtain ⟨⟨id, chain⟩, idListed, visited, alsoHolds⟩ :=
    explored.exists_visited shape guarded single shallow idle listed visits path holds
  obtain ⟨config, same, record⟩ := explored.record shape idListed visited
  simp only at same
  subst same
  exact ⟨id, config, record, alsoHolds⟩

end Explored

end Search

end GrammarNet
