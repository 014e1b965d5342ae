import Mathlib.Data.List.Chain
import GrammarNet.Proofs.Search.Invoking

/-!
# Searches that stop at a state

A search that stops at a state makes the same visits as one that does not, up to the first visit of that state outside
all invocations. Within an invocation of its own rule the state is passed. If no path within one invocation goes around
the state, then what a search finds is what it finds up to the state, and what it finds from there.
-/

namespace GrammarNet

namespace Network

/-! ## Paths within one invocation -/

/-- A path that consumes nothing goes on from the state within one invocation: along a transition, or past the invocation
of a rule. -/
inductive Onward (net : Network) (id : StateId) : StateId → Prop
  | passed {t : Transition} (goesOn : (net.state id).isRuleStop = false) (member : t ∈ (net.state id).transitions)
      (free : t.isEpsilon = true) (invokes : t.isRule = false) : Onward net id t.target
  | resumed {t : Transition} {next : StateId} (goesOn : (net.state id).isRuleStop = false)
      (member : t ∈ (net.state id).transitions) (follow : t.kind.follow? = some next) : Onward net id next

/-- All paths within one invocation from `start` to a rule stop pass through `through`. -/
def Separates (net : Network) (through start : StateId) : Prop :=
  ∀ path : List StateId, path.IsChain net.Onward → path.head? = some start →
    ∀ stop ∈ path.getLast?, (net.state stop).isRuleStop = true → through ∈ path

/-- No path within one invocation leaves the states, or ends in one of them, unless it passes through `through`. -/
def Enclosed (net : Network) (through : StateId) (states : List StateId) : Prop :=
  ∀ id ∈ states, (net.state id).isRuleStop = false ∧ ∀ t ∈ (net.state id).transitions,
    (t.isEpsilon = true → t.isRule = false → t.target = through ∨ t.target ∈ states) ∧
      ∀ next ∈ t.kind.follow?, next = through ∨ next ∈ states

instance (net : Network) (through : StateId) (states : List StateId) : Decidable (net.Enclosed through states) :=
  inferInstanceAs (Decidable (∀ id ∈ states, (net.state id).isRuleStop = false ∧ ∀ t ∈ (net.state id).transitions,
    (t.isEpsilon = true → t.isRule = false → t.target = through ∨ t.target ∈ states) ∧
      ∀ next ∈ t.kind.follow?, next = through ∨ next ∈ states))

section Onward

variable {net : Network} {through start id next stop : StateId} {states : List StateId} {steps : Nat}

theorem Enclosed.of_onward
    (enclosed : net.Enclosed through states) (member : id ∈ states) (onward : net.Onward id next) :
    next = through ∨ next ∈ states := by
  have stays := (enclosed id member).2
  cases onward with
  | passed _ inState free invokes => exact (stays _ inState).1 free invokes
  | resumed _ inState follow => exact (stays _ inState).2 next follow

theorem Enclosed.separates (enclosed : net.Enclosed through states) (member : start ∈ states) :
    net.Separates through start := by
  intro path chain head stop last stops
  induction path generalizing start with
  | nil => exact nomatch head
  | cons first rest inductionHypothesis =>
      obtain rfl := Option.some.inj head
      cases rest with
      | nil =>
          obtain rfl := Option.some.inj last
          have goesOn := (enclosed first member).1
          exact Bool.noConfusion (stops.symm.trans goesOn)
      | cons second rest =>
          have onward := List.isChain_cons_cons.mp chain
          rw [List.getLast?_cons_cons] at last
          rcases enclosed.of_onward member onward.1 with rfl | stays
          · exact List.mem_cons_of_mem first List.mem_cons_self
          · exact List.mem_cons_of_mem first (inductionHypothesis stays onward.2 rfl last)

theorem onward_of_follow
    (shape : net.WellFormed) (listed : id ∈ net.listed) (goesOn : (net.state id).isRuleStop = false)
    (returns : net.ReturnsTo (net.state id).number next) : net.Onward id next := by
  obtain ⟨invoker, found, t, member, follow⟩ := returns
  rw [shape.numbered id listed] at found
  obtain rfl := Option.some.inj found
  exact .resumed goesOn member follow

theorem Path.exists_returned
    {mode : SearchMode} {link : Int} (nonneg : 0 ≤ link) (stops : (net.state id).isRuleStop = true)
    (path : net.Path mode steps ⟨id, [link]⟩ ⟨stop, []⟩) :
    ∃ next fewer, fewer < steps ∧ net.ReturnsTo link next ∧ net.Path mode fewer ⟨next, []⟩ ⟨stop, []⟩ := by
  cases path with
  | @step later _ _ _ move rest =>
      cases move with
      | pass passable _ _ => exact absurd passable (not_passable_invoked nonneg stops)
      | enter passable _ _ => exact absurd passable (not_passable_invoked nonneg stops)
      | leave _ _ returns => exact ⟨_, later, Nat.lt_succ_self later, returns, rest⟩

/-- A path that returns from all it invokes begins with a step within the invocation, which passes a whole invocation if
it makes one. -/
theorem Path.exists_first_onward
    (shape : net.WellFormed) (listed : id ∈ net.listed)
    (path : net.Path { stop := some through } (steps + 1) ⟨id, []⟩ ⟨stop, []⟩) :
    id ≠ through ∧ ∃ next fewer, fewer < steps + 1 ∧ next ∈ net.listed ∧ net.Onward id next ∧
      net.Path { stop := some through } fewer ⟨next, []⟩ ⟨stop, []⟩ := by
  have unstopped : net.Passable { stop := some through } ⟨id, []⟩ →
      id ≠ through ∧ (net.state id).isRuleStop = false := by
    intro passable
    have stays := not_or.mp (passable_unknown_iff.mp passable)
    exact ⟨fun same => stays.1 (congrArg some same.symm), Bool.eq_false_iff.mpr stays.2⟩
  cases path with
  | @step _ _ q _ move path =>
      have nextListed : q.state ∈ net.listed := (shape.inside_of_move listed move).1
      cases move with
      | pass passable member passes =>
          obtain ⟨apart, goesOn⟩ := unstopped passable
          exact ⟨apart, _, steps, Nat.lt_succ_self steps, nextListed, .passed goesOn member passes.1 passes.2.1, path⟩
      | @enter _ t passable _ _ =>
          obtain ⟨apart, goesOn⟩ := unstopped passable
          have above : net.Path { stop := some through } steps ⟨t.target, [] ++ [(net.state id).number]⟩ ⟨stop, []⟩ :=
            path
          rcases above.lower shape nextListed CallStack.invoked_nil with
            ⟨rest, empty, _⟩ | ⟨inner, taken, left, stops, _, beyond, sum⟩
          · exact absurd empty.symm (by simp)
          · obtain ⟨next, fewer, shorter, returns, rest⟩ :=
              beyond.exists_returned (shape.nonneg_number listed) stops
            have onward := onward_of_follow shape listed goesOn returns
            exact ⟨apart, next, fewer, by omega, (shape.returnsTo returns).1, onward, rest⟩

/-- A path that returns from all it invokes leads within one invocation, and around the state at which it would stop. -/
theorem Path.exists_onward
    (shape : net.WellFormed) (listed : id ∈ net.listed)
    (path : net.Path { stop := some through } steps ⟨id, []⟩ ⟨stop, []⟩) (apart : stop ≠ through) :
    ∃ rest, (id :: rest).IsChain net.Onward ∧ (id :: rest).getLast? = some stop ∧ through ∉ id :: rest := by
  -- By induction on the length of the path, since what follows an invocation is no immediate part of it.
  induction steps using Nat.strongRecOn generalizing id with
  | ind steps inductionHypothesis =>
      cases steps with
      | zero =>
          cases path with
          | here => exact ⟨[], List.isChain_singleton _, rfl, by simpa using Ne.symm apart⟩
      | succ steps =>
          obtain ⟨here, next, fewer, shorter, nextListed, onward, later⟩ := path.exists_first_onward shape listed
          obtain ⟨rest, chain, last, avoids⟩ := inductionHypothesis fewer shorter nextListed later
          refine ⟨next :: rest, List.isChain_cons_cons.mpr ⟨onward, chain⟩, ?_, ?_⟩
          · rw [List.getLast?_cons_cons]
            exact last
          · exact List.not_mem_cons_of_ne_of_not_mem (Ne.symm here) avoids

end Onward

end Network

namespace Search

/-! ## Modes that agree at a point -/

/-- Paths end at the point and go on from there in both modes alike. -/
structure Agree (net : Network) (mode other : SearchMode) (p : Point) : Prop where
  halts : ∀ mark, net.Halts mode p mark ↔ net.Halts other p mark
  passable : net.Passable mode p ↔ net.Passable other p
  through : mode.throughPredicates = other.throughPredicates

section Agree

variable {net : Network} {mode other : SearchMode} {p : Point} {id stop : StateId} {config next origin : Config}
  {stack : CallStack} {task : Task} {x : Symbol}

theorem Agree.symm (agree : Agree net mode other p) : Agree net other mode p where
  halts := fun mark => (agree.halts mark).symm
  passable := agree.passable.symm
  through := agree.through.symm

theorem Agree.leads
    (agree : Agree net mode other ⟨id, config.stack⟩) (leads : Leads net mode id config task) :
    Leads net other id config task := by
  cases leads with
  | halted halts => exact .halted ((agree.halts _).mp halts)
  | returned stack invoked stops followed => exact .returned stack invoked stops followed
  | followed passable member followed =>
      refine .followed (agree.passable.mp passable) member ?_
      cases followed with
      | passed passes => exact .passed ⟨passes.1, passes.2.1, agree.through ▸ passes.2.2⟩
      | entered invokes fresh => exact .entered invokes fresh
      | hit predicate blocked => exact .hit predicate (agree.through ▸ blocked)
      | consumed consumes => exact .consumed consumes

theorem Agree.emits (agree : Agree net mode other p) (emits : net.Emits mode p x) : net.Emits other p x := by
  cases emits with
  | halt halts => exact .halt ((agree.halts x).mp halts)
  | consume passable member yields => exact .consume (agree.passable.mp passable) member yields
  | hit passable member predicate blocked =>
      exact .hit (agree.passable.mp passable) member predicate (agree.through ▸ blocked)

theorem Agree.calls (state : config.state = some id) (agree : Agree net mode other ⟨id, config.stack⟩)
    (calls : Calls net mode config next) : Calls net other config next := by
  obtain ⟨current, same, leads⟩ := calls
  obtain rfl := Option.some.inj (state.symm.trans same)
  exact ⟨id, state, agree.leads leads⟩

theorem Agree.offers (state : config.state = some id) (agree : Agree net mode other ⟨id, config.stack⟩)
    (offers : Offers net mode config x) : Offers net other config x := by
  obtain ⟨current, same, emits⟩ := offers
  obtain rfl := Option.some.inj (state.symm.trans same)
  exact ⟨id, state, agree.emits emits⟩

/-- Only the state at which a search stops, and only outside all invocations, tells whether it stops. -/
theorem agree_stop (invoked : stack.Invoked) (apart : stack = [] → id ≠ stop) :
    Agree net { stop := some stop } {} ⟨id, stack⟩ := by
  cases stack with
  | nil =>
      have leaves : net.Leaves { stop := some stop } id ↔ net.Leaves {} id := by
        simp [Network.Leaves, Ne.symm (apart rfl)]
      exact ⟨fun mark => and_congr_left' leaves, not_congr leaves, rfl⟩
  | cons link outer =>
      have nonneg := (CallStack.invoked_cons_iff.mp invoked).1
      refine ⟨fun mark => ?_, ?_, rfl⟩
      · exact iff_of_false (Network.not_halts_invoked nonneg) (Network.not_halts_invoked nonneg)
      · rw [Network.passable_invoked_iff nonneg, Network.passable_invoked_iff nonneg]

end Agree

/-! ## Visits up to a state, and beyond it -/

section Stopping

variable {net : Network} {start stop : StateId} {config next origin : Config} {x : Symbol}

theorem Traced.exists_agree (traced : Traced net config) (apart : config ≠ ⟨some stop, [], []⟩) :
    ∃ id, config.state = some id ∧ Agree net { stop := some stop } {} ⟨id, config.stack⟩ := by
  obtain ⟨_, id, state, _, nested, _⟩ := traced
  refine ⟨id, state, agree_stop nested.invoked fun empty => ?_⟩
  obtain ⟨current, chain, entered⟩ := config
  simp only at state nested empty
  subst state empty
  cases nested with
  | outermost =>
      rintro rfl
      exact apart rfl

theorem not_calls_stop : ¬ Calls net { stop := some stop } ⟨some stop, [], []⟩ next := by
  rintro ⟨id, same, leads⟩
  obtain rfl := Option.some.inj same
  cases leads with
  | returned stack _ _ _ => exact nomatch stack
  | followed passable _ _ => exact passable (Or.inl rfl)

theorem offers_stop_iff : Offers net { stop := some stop } ⟨some stop, [], []⟩ x ↔ x = Symbol.epsilon := by
  constructor
  · rintro ⟨id, same, emits⟩
    obtain rfl := Option.some.inj same
    cases emits with
    | halt halts => exact halts.2
    | consume passable _ _ => exact absurd (Or.inl rfl) passable
    | hit passable _ _ _ => exact absurd (Or.inl rfl) passable
  · rintro rfl
    exact ⟨stop, rfl, .halt ⟨Or.inl rfl, rfl⟩⟩

/-- The visits of a search that stops are visits of one that does not. -/
theorem Calling.of_stop
    (shape : net.WellFormed) (traced : Traced net origin) (path : Calling net { stop := some stop } origin config) :
    Calling net {} origin config := by
  induction path with
  | refl => exact .refl
  | @tail earlier _ before calls inductionHypothesis =>
      have apart : earlier ≠ ⟨some stop, [], []⟩ := fun same => not_calls_stop (same ▸ calls)
      obtain ⟨id, state, agree⟩ := (Calling.traced shape traced before).exists_agree apart
      exact inductionHypothesis.tail (agree.calls state calls)

/-- A path of visits goes around the state, or it leads up to the state and on from there. -/
theorem Calling.around_or_through
    (shape : net.WellFormed) (traced : Traced net origin) (path : Calling net {} origin config) :
    (Calling net { stop := some stop } origin config ∧ config ≠ ⟨some stop, [], []⟩) ∨
      (Calling net { stop := some stop } origin ⟨some stop, [], []⟩ ∧ Calling net {} ⟨some stop, [], []⟩ config) := by
  induction path with
  | refl =>
      by_cases here : origin = ⟨some stop, [], []⟩
      · rw [here]
        exact Or.inr ⟨.refl, .refl⟩
      · exact Or.inl ⟨.refl, here⟩
  | @tail earlier later _ calls inductionHypothesis =>
      rcases inductionHypothesis with ⟨around, apart⟩ | ⟨upTo, beyond⟩
      · obtain ⟨id, state, agree⟩ := (around.traced shape traced).exists_agree apart
        have onward := around.tail (agree.symm.calls state calls)
        by_cases here : later = ⟨some stop, [], []⟩
        · rw [here] at onward ⊢
          exact Or.inr ⟨onward, .refl⟩
        · exact Or.inl ⟨onward, here⟩
      · exact Or.inr ⟨upTo, beyond.tail calls⟩

theorem Calling.eq_of_separates
    {ending : StateId} (shape : net.WellFormed) (listed : start ∈ net.listed) (separates : net.Separates stop start)
    (path : Calling net { stop := some stop } ⟨some start, [], []⟩ ⟨some ending, [], []⟩)
    (ends : (net.state ending).isRuleStop = true) : ending = stop := by
  by_contra apart
  obtain ⟨steps, moves⟩ := path.reaches shape rfl
  obtain ⟨rest, chain, last, avoids⟩ := Network.Path.exists_onward shape listed moves apart
  exact avoids (separates _ chain rfl ending last ends)

/-- The mark of the end is not shown on the way to a state around which no path leads. -/
theorem Calling.ne_epsilon
    (shape : net.WellFormed) (unmarked : Unmarked net) (listed : start ∈ net.listed)
    (separates : net.Separates stop start) (path : Calling net { stop := some stop } ⟨some start, [], []⟩ config)
    (apart : config ≠ ⟨some stop, [], []⟩) (offers : Offers net {} config x) : x ≠ Symbol.epsilon := by
  have traced := path.traced shape (traced_start listed)
  rcases traced.offers_iff.mp offers with ⟨ending, rfl, ends, _⟩ | ⟨id, inNetwork, _, _, t, member, yields⟩
  · have here := path.eq_of_separates shape listed separates ends
    rw [here] at apart
    exact absurd rfl apart
  · rintro rfl
    exact unmarked id inNetwork t member yields

/-- If all paths within one invocation pass through a state, then what is shown is shown up to the state, or from there
if some path comes to it. -/
theorem shows_iff_of_separates
    (shape : net.WellFormed) (unmarked : Unmarked net) (listed : start ∈ net.listed)
    (separates : net.Separates stop start) :
    Shows net {} ⟨some start, [], []⟩ x ↔
      (Shows net { stop := some stop } ⟨some start, [], []⟩ x ∧ x ≠ Symbol.epsilon) ∨
        (Shows net { stop := some stop } ⟨some start, [], []⟩ Symbol.epsilon ∧ Shows net {} ⟨some stop, [], []⟩ x) := by
  have traced := traced_start listed
  constructor
  · rintro ⟨config, path, offers⟩
    rcases path.around_or_through shape traced with ⟨around, apart⟩ | ⟨upTo, beyond⟩
    · obtain ⟨id, state, agree⟩ := (around.traced shape traced).exists_agree apart
      have real := around.ne_epsilon shape unmarked listed separates apart offers
      exact Or.inl ⟨⟨config, around, agree.symm.offers state offers⟩, real⟩
    · exact Or.inr ⟨⟨_, upTo, offers_stop_iff.mpr rfl⟩, config, beyond, offers⟩
  · rintro (⟨⟨config, path, offers⟩, real⟩ | ⟨⟨config, path, offers⟩, last, beyond, shown⟩)
    · have apart : config ≠ ⟨some stop, [], []⟩ := by
        rintro rfl
        exact real (offers_stop_iff.mp offers)
      obtain ⟨id, state, agree⟩ := (path.traced shape traced).exists_agree apart
      exact ⟨config, path.of_stop shape traced, agree.offers state offers⟩
    · have here : config = ⟨some stop, [], []⟩ := by
        by_contra apart
        obtain ⟨id, state, agree⟩ := (path.traced shape traced).exists_agree apart
        exact path.ne_epsilon shape unmarked listed separates apart (agree.offers state offers) rfl
      rw [here] at path
      exact ⟨last, (path.of_stop shape traced).trans beyond, shown⟩

end Stopping

end Search

end GrammarNet
