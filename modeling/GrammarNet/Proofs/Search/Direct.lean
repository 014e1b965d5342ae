import GrammarNet.Proofs.Pushdown.Rooted
import GrammarNet.Proofs.Search.Complete
import GrammarNet.Proofs.Search.Growth

/-!
# Searches that begin without callers

If nothing is known about the callers, the rules that a path of a search has entered are those that the links of its
chain invoke. So configurations that leave the same mark are the same, and a search loses nothing by passing over those
that it has visited: it finds what is shown on paths of visits, on which no rule is entered within itself. For this, it
does not matter whether rules match something, nor where the search stops.
-/

namespace GrammarNet

deriving instance DecidableEq for Config, Task

namespace Search

/-! ## Nested invocations -/

/-- The rules entered are those that the links of the chain invoke, the first one in a state of the rule `base` and each
further one in a state of the rule before it. The state belongs to the rule that was entered last. -/
inductive Nested (net : Network) (base : Int) : StateId → CallStack → List Int → Prop
  | outermost {id : StateId} (same : (net.state id).rule = base) : Nested net base id [] []
  | within {id invoker : StateId} {link : Int} {outer : CallStack} {entered : List Int} {t : Transition}
      (found : net.slot? link = some invoker) (member : t ∈ (net.state invoker).transitions) (invokes : t.isRule = true)
      (same : (net.state id).rule = (net.state t.target).rule) (outward : Nested net base invoker outer entered) :
      Nested net base id (link :: outer) ((net.state t.target).rule :: entered)

section Nested

variable {net : Network} {mode : SearchMode} {base other : Int} {id target : StateId} {stack : CallStack}
  {entered others : List Int} {config next origin : Config}

theorem Nested.of_rule_eq
    (nested : Nested net base id stack entered) (same : (net.state target).rule = (net.state id).rule) :
    Nested net base target stack entered := by
  cases nested with
  | outermost home => exact .outermost (same.trans home)
  | within found member invokes home outward => exact .within found member invokes (same.trans home) outward

theorem Nested.invoked (nested : Nested net base id stack entered) : stack.Invoked := by
  induction nested with
  | outermost => exact CallStack.invoked_nil
  | within found _ _ _ _ inductionHypothesis =>
      exact CallStack.invoked_cons_iff.mpr ⟨Network.nonneg_of_slot? found, inductionHypothesis⟩

/-- The chain says which rules were entered. -/
theorem Nested.entered_eq
    (shape : net.WellFormed) (nested : Nested net base id stack entered) (also : Nested net other target stack others) :
    entered = others := by
  induction nested generalizing target others with
  | outermost =>
      cases also with
      | outermost => rfl
  | @within id invoker link outer entered t found member invokes _ _ inductionHypothesis =>
      cases also with
      | @within _ source _ _ rest u alsoFound alsoMember alsoInvokes _ alsoOutward =>
          rw [found] at alsoFound
          obtain rfl := Option.some.inj alsoFound
          -- The link names the invoking state, whose only transition names the rule.
          have alone := (shape.invocations invoker (Network.mem_listed_of_slot? found) t member invokes).1
          rw [alone, List.mem_singleton] at alsoMember
          rw [alsoMember, inductionHypothesis alsoOutward]

/-- The rules entered remain those of the chain, whatever a configuration leads to. -/
theorem Nested.of_leads
    (shape : net.WellFormed) (inside : Network.WellFormed.Inside net id)
    (nested : Nested net base id config.stack config.entered) (leads : Leads net mode id config (.visit next))
    (state : next.state = some target) : Nested net base target next.stack next.entered := by
  obtain ⟨current, chain, entered⟩ := config
  cases leads with
  | @returned link outer follow stack invoked stops followed =>
      simp only at stack state nested
      subst stack state
      have returns := shape.followState_eq_ok_iff.mp followed
      obtain ⟨_, _, source, sourceFound, sameRule⟩ := shape.returnsTo returns
      cases nested with
      | within found member invokes same outward =>
          rw [found] at sourceFound
          obtain rfl := Option.some.inj sourceFound
          -- The rule that stops was entered last, so it is the one that is erased.
          simp only [same, List.erase_cons_head]
          exact outward.of_rule_eq sameRule
  | @followed t _ passable member followed =>
      have goesOn : (net.state id).kind ≠ .ruleStop := by
        intro stops
        have ends : (net.state id).isRuleStop = true := by simp [State.isRuleStop, stops]
        exact Network.not_passable_of_ruleStop ends nested.invoked passable
      cases followed with
      | passed passes =>
          obtain rfl := Option.some.inj state
          exact nested.of_rule_eq (shape.within id inside.1 goesOn inside.2 t member passes.2.1)
      | entered invokes fresh =>
          obtain rfl := Option.some.inj state
          exact .within (shape.numbered id inside.1) member invokes rfl nested

/-! ## Paths of visits -/

/-- The configuration visits a state of the network, and the rules entered are those of its chain. -/
def Placed (net : Network) (base : Int) (config : Config) : Prop :=
  ∃ id, config.state = some id ∧ Network.WellFormed.Inside net id ∧ Nested net base id config.stack config.entered

theorem placed_start (inside : Network.WellFormed.Inside net id) : Placed net (net.state id).rule ⟨some id, [], []⟩ :=
  ⟨id, rfl, inside, .outermost rfl⟩

theorem Calls.placed (shape : net.WellFormed) (placed : Placed net base config) (calls : Calls net mode config next) :
    Placed net base next := by
  obtain ⟨id, state, inside, nested⟩ := placed
  obtain ⟨current, currentState, leads⟩ := calls
  rw [state] at currentState
  obtain rfl := Option.some.inj currentState
  obtain ⟨target, targetState, move⟩ := leads.move shape
  exact ⟨target, targetState, shape.inside_of_move inside.1 move, nested.of_leads shape inside leads targetState⟩

theorem Calling.placed
    (shape : net.WellFormed) (placed : Placed net base origin) (path : Calling net mode origin config) :
    Placed net base config := by
  induction path with
  | refl => exact placed
  | tail _ calls inductionHypothesis => exact calls.placed shape inductionHypothesis

/-- The configuration visits a state of the network, and the rules entered are those of its chain. Nothing has been
invoked at the start of a mode, which is left for states of any rule. -/
def Traced (net : Network) (config : Config) : Prop :=
  ∃ base id, config.state = some id ∧ id ∈ net.listed ∧ Nested net base id config.stack config.entered ∧
    ((net.state id).kind = .tokensStart → config.stack = [])

theorem Placed.traced (placed : Placed net base config) : Traced net config := by
  obtain ⟨id, state, inside, nested⟩ := placed
  exact ⟨base, id, state, inside.1, nested, fun begins => absurd begins inside.2⟩

theorem traced_start (listed : id ∈ net.listed) : Traced net ⟨some id, [], []⟩ :=
  ⟨(net.state id).rule, id, rfl, listed, .outermost rfl, fun _ => rfl⟩

theorem Calls.traced (shape : net.WellFormed) (traced : Traced net config) (calls : Calls net mode config next) :
    Traced net next := by
  obtain ⟨base, id, state, listed, nested, uninvoked⟩ := traced
  obtain ⟨current, currentState, leads⟩ := calls
  rw [state] at currentState
  obtain rfl := Option.some.inj currentState
  obtain ⟨target, targetState, move⟩ := leads.move shape
  obtain ⟨targetListed, kind⟩ := shape.inside_of_move listed move
  suffices rooted : ∃ base, Nested net base target next.stack next.entered by
    obtain ⟨base, nested⟩ := rooted
    exact ⟨base, target, targetState, targetListed, nested, fun begins => absurd begins kind⟩
  by_cases begins : (net.state id).kind = .tokensStart
  · have empty := uninvoked begins
    cases leads with
    | returned stack _ _ _ =>
        rw [empty] at stack
        exact nomatch stack
    | followed _ member followed =>
        cases followed with
        | passed _ =>
            -- The rule may be another one, and is the outermost from here on.
            cases config with
            | mk current chain entered =>
                simp only at empty nested
                subst empty
                cases nested with
                | outermost => exact ⟨_, .outermost rfl⟩
        | entered invokes _ =>
            obtain rfl := Option.some.inj targetState
            exact ⟨base, .within (shape.numbered id listed) member invokes rfl nested⟩
  · exact ⟨base, nested.of_leads shape ⟨listed, begins⟩ leads targetState⟩

theorem Calling.traced (shape : net.WellFormed) (traced : Traced net origin) (path : Calling net mode origin config) :
    Traced net config := by
  induction path with
  | refl => exact traced
  | tail _ calls inductionHypothesis => exact calls.traced shape inductionHypothesis

/-- A path of visits is one of moves. -/
theorem Calling.reaches
    (shape : net.WellFormed) (path : Calling net mode ⟨some id, stack, []⟩ config) (state : config.state = some target) :
    net.Reaches mode ⟨id, stack⟩ ⟨target, config.stack⟩ := by
  induction path generalizing target with
  | refl =>
      obtain rfl := Option.some.inj state
      exact .refl _
  | @tail earlier config _ calls inductionHypothesis =>
      obtain ⟨current, currentState, leads⟩ := calls
      obtain ⟨goal, goalState, move⟩ := leads.move shape
      rw [state] at goalState
      obtain rfl := Option.some.inj goalState
      exact (inductionHypothesis currentState).append move

end Nested

/-! ## What is shown on a path of visits -/

/-- The point that the configuration visits shows the symbol. -/
def Offers (net : Network) (mode : SearchMode) (config : Config) (x : Symbol) : Prop :=
  ∃ id, config.state = some id ∧ net.Emits mode ⟨id, config.stack⟩ x

/-- Some path of visits leads to a configuration that shows the symbol. -/
def Shows (net : Network) (mode : SearchMode) (origin : Config) (x : Symbol) : Prop :=
  ∃ config, Calling net mode origin config ∧ Offers net mode config x

/-- A task lies on a path of visits, or brings symbols that are shown on one. -/
def Lies (net : Network) (mode : SearchMode) (origin : Config) : Task → Prop
  | .visit config => Calling net mode origin config
  | .report x => Shows net mode origin x
  | .consume kind => ∀ x, kind.Yields net.maxSymbol x → Shows net mode origin x

/-- What is pending lies on paths of visits and what was found is shown on them. Whatever was visited lies on such a path
as well, and what it leads to is pending or done. -/
structure Direct (net : Network) (mode : SearchMode) (origin : Config) (search : Search) : Prop where
  tasks : ∀ task ∈ search.pending, Lies net mode origin task
  found : ∀ x ∈ search.found, Shows net mode origin x
  visited : ∀ key ∈ search.visited, ∃ id config, config.state = some id ∧ key = ((net.state id).number, config.stack) ∧
    Calling net mode origin config ∧ ∀ task, Leads net mode id config task → task ∈ search.pending ∨ search.Done net task
  begun : .visit origin ∈ search.pending ∨ search.Done net (.visit origin)

section Direct

variable {net : Network} {mode : SearchMode} {P : Range → Prop} {id : StateId} {origin config : Config} {point : Point}
  {search next : Search} {task : Task} {rest : List Task} {x : Symbol}

theorem Leads.lies (path : Calling net mode origin config) (state : config.state = some id)
    (leads : Leads net mode id config task) : Lies net mode origin task := by
  cases task with
  | visit next => exact path.tail ⟨id, state, leads⟩
  | report x => exact ⟨config, path, id, state, leads.emits⟩
  | consume kind =>
      obtain ⟨passable, t, member, same⟩ := leads.transition
      subst same
      exact fun x yields => ⟨config, path, id, state, .consume passable member yields⟩

theorem direct_start (start : Option StateId) (stack : CallStack) :
    Direct net mode ⟨start, stack, []⟩ (Search.start start stack) where
  tasks := by
    intro task member
    rw [List.mem_singleton.mp member]
    exact .refl
  found := fun x member => absurd member (RangeSet.not_mem_empty x)
  visited := fun key member => absurd member Std.HashSet.not_mem_empty
  begun := Or.inl (List.mem_singleton.mpr rfl)

/-- What a task leaves behind is direct if the search was. -/
theorem Direct.performed
    (admits : Admits P) (sound : search.Sound net mode P point) (direct : Direct net mode origin search)
    (pending : search.pending = task :: rest) (performed : Performed net mode search rest task next) :
    Direct net mode origin next := by
  have here : Lies net mode origin task := direct.tasks task (pending ▸ List.mem_cons_self)
  have later : ∀ other ∈ rest, Lies net mode origin other := fun other member =>
    direct.tasks other (pending ▸ List.mem_cons_of_mem task member)
  have carried : ∀ key ∈ search.visited, ∃ id config, config.state = some id ∧
      key = ((net.state id).number, config.stack) ∧ Calling net mode origin config ∧
        ∀ task, Leads net mode id config task → task ∈ next.pending ∨ next.Done net task := by
    intro key member
    obtain ⟨id, config, state, same, path, tasks⟩ := direct.visited key member
    exact ⟨id, config, state, same, path, fun other leads =>
      performed.settles admits sound pending (tasks other leads)⟩
  have begun := performed.settles admits sound pending direct.begun
  have proper := sound.tasks task (pending ▸ List.mem_cons_self)
  cases performed with
  | reported x =>
      refine ⟨later, fun y member => ?_, carried, begun⟩
      rcases sound.kept.ascending.mem_insert.mp member with rfl | old
      · exact here
      · exact direct.found y old
  | consumed offered =>
      obtain ⟨ranges, yields⟩ := TransitionKind.Labelled.of_offer admits proper.1 offered
      refine ⟨later, fun y member => ?_, carried, begun⟩
      rcases (sound.kept.ascending.mem_union fun r inside => admits.upright (ranges r inside)).mp member with old | new
      · exact direct.found y old
      · exact here y ((yields y).mp new)
  | passed => exact ⟨later, direct.found, carried, begun⟩
  | @expanded config id tasks state fresh expanded =>
      refine ⟨fun other member => ?_, direct.found, fun key member => ?_, begun⟩
      · rcases List.mem_append.mp member with child | old
        · exact Leads.lies here state ((mem_expand_iff expanded).mp child)
        · exact later other old
      · rcases Std.HashSet.mem_insert.mp member with new | before
        · exact ⟨id, config, state, (eq_of_beq new).symm, here, fun other leads =>
            Or.inl (List.mem_append_left _ ((mem_expand_iff expanded).mpr leads))⟩
        · exact carried key before

/-- The mark of a configuration determines it: its number tells the state, and its chain the rules entered. So if a search
that is done has seen the mark, then it has done what the configuration leads to. -/
theorem Direct.done_of_visits
    (shape : net.WellFormed) (traced : Traced net origin) (direct : Direct net mode origin search)
    (idle : search.pending = []) (path : Calling net mode origin config) (state : config.state = some id)
    (visits : search.Visits net ⟨id, config.stack⟩) (leads : Leads net mode id config task) : search.Done net task := by
  obtain ⟨other, known, knownState, key, knownPath, tasks⟩ := direct.visited _ visits
  obtain ⟨_, _, sameState, listed, nested, _⟩ := path.traced shape traced
  obtain ⟨_, _, alsoState, knownListed, knownNested, _⟩ := knownPath.traced shape traced
  rw [state] at sameState
  rw [knownState] at alsoState
  obtain rfl := Option.some.inj sameState
  obtain rfl := Option.some.inj alsoState
  injection key with number stack
  obtain rfl := shape.eq_of_number_eq listed knownListed number
  rw [← stack] at knownNested
  have entered := nested.entered_eq shape knownNested
  have same : config = known := by
    obtain ⟨_, _, _⟩ := config
    obtain ⟨_, _, _⟩ := known
    simp_all
  rw [← same] at tasks
  rcases tasks task leads with pending | done
  · rw [idle] at pending
    exact absurd pending List.not_mem_nil
  · exact done

/-- A search that is done has visited every configuration on a path of visits. -/
theorem Direct.visits
    (shape : net.WellFormed) (traced : Traced net origin) (direct : Direct net mode origin search)
    (idle : search.pending = []) (path : Calling net mode origin config) (state : config.state = some id) :
    search.Visits net ⟨id, config.stack⟩ := by
  have done : search.Done net (.visit config) := by
    -- By induction on the path: what led to the last configuration was visited, so its tasks were done.
    induction path generalizing id with
    | refl =>
        rcases direct.begun with pending | done
        · rw [idle] at pending
          exact absurd pending List.not_mem_nil
        · exact done
    | tail earlier calls inductionHypothesis =>
        obtain ⟨current, currentState, leads⟩ := calls
        obtain ⟨known, knownState, visits⟩ := inductionHypothesis currentState
        rw [currentState] at knownState
        obtain rfl := Option.some.inj knownState
        exact direct.done_of_visits shape traced idle earlier currentState visits leads
  obtain ⟨known, knownState, visits⟩ := done
  rw [state] at knownState
  obtain rfl := Option.some.inj knownState
  exact visits

/-- A search that is done has found what is shown on paths of visits. -/
theorem Direct.mem_found_iff
    (shape : net.WellFormed) (traced : Traced net origin) (direct : Direct net mode origin search)
    (idle : search.pending = []) : x ∈ search.found ↔ Shows net mode origin x := by
  constructor
  · exact direct.found x
  · rintro ⟨config, path, id, state, emits⟩
    have visits := direct.visits shape traced idle path state
    rcases leads_of_emits emits with leads | ⟨kind, leads, yields⟩
    · exact direct.done_of_visits shape traced idle path state visits leads
    · exact direct.done_of_visits shape traced idle path state visits leads x yields

/-- Without callers, the lookahead of a state holds what is shown on paths of visits. -/
theorem exists_lookahead_shows
    (mode : SearchMode) (shape : net.WellFormed) (admits : Admits P) (labelled : net.Labelled P)
    (listed : id ∈ net.listed) :
    ∃ found, net.lookahead mode (some id) .unknown = .ok found ∧ ∀ x, x ∈ found ↔ Shows net mode ⟨some id, [], []⟩ x := by
  obtain ⟨steps, ends, _⟩ := ends_lookahead net mode (some id) .unknown
  -- That tasks do not fail is known from the points that they lie on, what is found from the configurations.
  have outcomes := ends.invariant
    (P := fun search => search.Sound net mode P ⟨id, .unknown⟩ ∧ Direct net mode ⟨some id, [], []⟩ search)
    ⟨sound_start listed, direct_start (some id) []⟩
    fun holds pending performed =>
      ⟨holds.1.performed shape admits labelled pending performed, holds.2.performed admits holds.1 pending performed⟩
  rcases outcomes with
    ⟨last, ⟨_, direct⟩, idle, outcome⟩ | ⟨last, task, rest, fault, ⟨sound, _⟩, pending, refused, outcome⟩
  · exact ⟨last.found, outcome, fun x => direct.mem_found_iff shape (traced_start listed) idle⟩
  · obtain ⟨p, reaches, fails⟩ := sound.fails admits pending refused
    have invoking := Network.invoking_of_reaches shape listed Network.invoking_unknown reaches
    exact absurd fails (Network.not_fails_of_invoking shape invoking)

end Direct

/-! ## Paths of visits that can be computed -/

/-- What visiting the configuration leads to. -/
def tasksOf (net : Network) (config : Config) : List Task :=
  match config.state with
  | none => []
  | some id => (expand net {} id config).toOption.getD []

/-- The task goes on within the configurations, and does not bring the symbol. -/
def StaysWithout (configs : List Config) (greatest x : Symbol) : Task → Prop
  | .visit config => config ∈ configs
  | .report y => y ≠ x
  | .consume kind => ¬ kind.Yields greatest x

instance (configs : List Config) (greatest x : Symbol) : (task : Task) → Decidable (StaysWithout configs greatest x task)
  | .visit config => inferInstanceAs (Decidable (config ∈ configs))
  | .report y => inferInstanceAs (Decidable (y ≠ x))
  | .consume kind => inferInstanceAs (Decidable (¬ kind.Yields greatest x))

/-- Whatever the configurations lead to is among them, and none of them brings the symbol. -/
def Encloses (net : Network) (configs : List Config) (x : Symbol) : Prop :=
  ∀ config ∈ configs, ∀ task ∈ tasksOf net config, StaysWithout configs net.maxSymbol x task

instance (net : Network) (configs : List Config) (x : Symbol) : Decidable (Encloses net configs x) :=
  inferInstanceAs (Decidable (∀ config ∈ configs, ∀ task ∈ tasksOf net config,
    StaysWithout configs net.maxSymbol x task))

section Computed

variable {net : Network} {config next origin : Config} {task : Task} {x : Symbol}

theorem not_leads_of_fails {id : StateId} {fault : Fault} (fails : net.Fails ⟨id, config.stack⟩ fault) :
    ¬ Leads net {} id config task := by
  obtain ⟨link, outer, stack, invoked, stops, failed⟩ := fails
  simp only at stack stops
  intro leads
  cases leads with
  | halted halts =>
      rw [stack] at halts
      exact Network.not_halts_invoked invoked halts
  | returned also _ _ followed =>
      obtain ⟨rfl, rfl⟩ := List.cons.inj (stack.symm.trans also)
      rw [failed] at followed
      contradiction
  | followed passable _ _ =>
      rw [stack] at passable
      exact Network.not_passable_invoked invoked stops passable

theorem mem_tasksOf_iff : task ∈ tasksOf net config ↔ ∃ id, config.state = some id ∧ Leads net {} id config task := by
  unfold tasksOf
  cases state : config.state with
  | none => exact iff_of_false List.not_mem_nil nofun
  | some id =>
      have only : (∃ current, some id = some current ∧ Leads net {} current config task) ↔ Leads net {} id config task := by
        simp only [Option.some.injEq, exists_eq_left']
      rw [only]
      show task ∈ (expand net {} id config).toOption.getD [] ↔ _
      cases expanded : expand net {} id config with
      | ok tasks => exact mem_expand_iff expanded
      | error fault => exact iff_of_false List.not_mem_nil (not_leads_of_fails (expand_error_iff.mp expanded))

instance : Decidable (Calls net {} config next) := decidable_of_iff (.visit next ∈ tasksOf net config) mem_tasksOf_iff

/-- What no configuration brings is not shown from any of them, if there is no way out. -/
theorem Encloses.not_shows
    {configs : List Config} (encloses : Encloses net configs x) (member : origin ∈ configs) : ¬ Shows net {} origin x := by
  rintro ⟨last, path, id, state, emits⟩
  have among : last ∈ configs := by
    clear state emits
    induction path with
    | refl => exact member
    | tail _ calls inductionHypothesis => exact encloses _ inductionHypothesis _ (mem_tasksOf_iff.mpr calls)
  rcases leads_of_emits emits with leads | ⟨kind, leads, yields⟩
  · exact encloses last among _ (mem_tasksOf_iff.mpr ⟨id, state, leads⟩) rfl
  · exact encloses last among _ (mem_tasksOf_iff.mpr ⟨id, state, leads⟩) yields

end Computed

end Search

end GrammarNet
