import GrammarNet.Proofs.Search.Direct
import GrammarNet.Proofs.Search.Recast

/-!
# What an invocation shows

A state that invokes a rule shows what the start of the rule shows, and if the rule can end also what follows the
invocation. The paths of visits from the start itself may enter the rule once more, those from the invocation may not. If
the rule cannot both come back to itself and match nothing, this makes no difference: a path that enters the rule once
more never leaves it again, and may as well begin there.
-/

namespace GrammarNet

/-- The configuration on top of a chain, with the rules that were entered along it. -/
def Config.above (config : Config) (base : CallStack) (under : List Int) : Config :=
  ⟨config.state, config.stack ++ base, config.entered ++ under⟩

namespace Search

section Above

variable {net : Network} {rule : Int} {id stop : StateId} {base : CallStack} {under : List Int}
  {config next later origin : Config}

theorem above_nil (config : Config) : config.above [] [] = config := by
  unfold Config.above
  rw [List.append_nil, List.append_nil]

theorem eq_of_above_eq {state : Option StateId} (same : config.above base under = ⟨state, [], []⟩) :
    config = ⟨state, [], []⟩ := by
  obtain ⟨current, chain, entered⟩ := config
  injection same with sameState stack rules
  obtain rfl : chain = [] := (List.append_eq_nil_iff.mp stack).1
  obtain rfl : entered = [] := (List.append_eq_nil_iff.mp rules).1
  exact congrArg (Config.mk · [] []) sameState

/-! ## Visits above a chain -/

/-- What a visit above a chain leads to is above the chain, unless a rule stops right on the chain. -/
theorem Calls.lower
    (placed : Placed net rule config) (calls : Calls net {} (config.above base under) later) :
    (∃ next, Calls net {} config next ∧ later = next.above base under) ∨
      ∃ stop, config = ⟨some stop, [], []⟩ ∧ (net.state stop).isRuleStop = true := by
  obtain ⟨id, state, _, nested⟩ := placed
  obtain ⟨current, chain, entered⟩ := config
  simp only at state nested
  subst state
  obtain ⟨_, same, leads⟩ := calls
  obtain rfl := Option.some.inj same
  cases leads with
  | returned stack invoked stops followed =>
      cases nested with
      | outermost => exact Or.inr ⟨id, rfl, stops⟩
      | @within _ _ _ _ entered t found member invokes home _ =>
          injection stack with sameLink sameOuter
          subst sameLink sameOuter
          refine Or.inl ⟨_, ⟨id, rfl, .returned rfl invoked stops followed⟩, ?_⟩
          -- The rule that stops is the first of those entered, so none of those below is erased for it.
          simp only [Config.above, home, List.cons_append, List.erase_cons_head]
          rfl
  | followed passable member followed =>
      have still := Network.passable_iff.mp passable
      have goesOn : net.Passable {} ⟨id, chain⟩ := Network.passable_iff.mpr still
      cases followed with
      | passed passes => exact Or.inl ⟨_, ⟨id, rfl, .followed goesOn member (.passed passes)⟩, rfl⟩
      | entered invokes fresh =>
          have before := fun inside => fresh (List.mem_append_left under inside)
          exact Or.inl ⟨_, ⟨id, rfl, .followed goesOn member (.entered invokes before)⟩, rfl⟩

/-- A visit can be put on top of a chain if it enters none of the rules that were entered along the chain. -/
theorem Calls.lift
    (placed : Placed net rule config) (calls : Calls net {} config next) (apart : ∀ r ∈ next.entered, r ∉ under) :
    Calls net {} (config.above base under) (next.above base under) := by
  obtain ⟨id, state, _, nested⟩ := placed
  obtain ⟨current, chain, entered⟩ := config
  simp only at state nested
  subst state
  obtain ⟨_, same, leads⟩ := calls
  obtain rfl := Option.some.inj same
  refine ⟨id, rfl, ?_⟩
  cases leads with
  | @returned _ _ follow stack invoked stops followed =>
      cases nested with
      | outermost => exact nomatch stack
      | @within _ _ link outer entered t found member invokes home _ =>
          injection stack with sameLink sameOuter
          subst sameLink sameOuter
          have returned := @Leads.returned net {} id
            (Config.above ⟨some id, link :: outer, (net.state t.target).rule :: entered⟩ base under) link (outer ++ base)
            follow rfl invoked stops followed
          simp only [Config.above, home, List.cons_append, List.erase_cons_head] at returned ⊢
          exact returned
  | @followed t _ passable member followed =>
      have still := Network.passable_iff.mp passable
      have goesOn : net.Passable {} ⟨id, chain ++ base⟩ := Network.passable_iff.mpr still
      cases followed with
      | passed passes => exact .followed goesOn member (.passed passes)
      | entered invokes fresh =>
          refine .followed goesOn member (.entered invokes fun inside => ?_)
          rcases List.mem_append.mp inside with before | below
          · exact fresh before
          · exact apart _ List.mem_cons_self below

theorem not_calls_of_stop {entered : List Int} (stops : (net.state stop).isRuleStop = true) :
    ¬ Calls net {} ⟨some stop, [], entered⟩ next := by
  rintro ⟨_, same, leads⟩
  obtain rfl := Option.some.inj same
  cases leads with
  | returned stack _ _ _ => exact nomatch stack
  | followed passable _ _ =>
      have goesOn := Network.passable_iff.mp passable
      exact Bool.noConfusion (stops.symm.trans goesOn)

/-! ## Paths of visits above a chain -/

/-- A path of visits above a chain stays above it, or it first comes to the stop of a rule right on the chain. -/
theorem Calling.lower
    (shape : net.WellFormed) (placed : Placed net rule origin) (path : Calling net {} (origin.above base under) later) :
    (∃ config, Calling net {} origin config ∧ later = config.above base under) ∨
      ∃ stop next, Calling net {} origin ⟨some stop, [], []⟩ ∧ (net.state stop).isRuleStop = true ∧
        Calls net {} (Config.above ⟨some stop, [], []⟩ base under) next ∧ Calling net {} next later := by
  induction path with
  | refl => exact Or.inl ⟨origin, .refl, rfl⟩
  | tail _ calls inductionHypothesis =>
      rcases inductionHypothesis with ⟨config, inner, rfl⟩ | ⟨stop, next, inner, stops, left, beyond⟩
      · rcases calls.lower (inner.placed shape placed) with ⟨next, step, rfl⟩ | ⟨stop, rfl, stops⟩
        · exact Or.inl ⟨next, inner.tail step, rfl⟩
        · exact Or.inr ⟨stop, _, inner, stops, calls, .refl⟩
      · exact Or.inr ⟨stop, next, inner, stops, left, beyond.tail calls⟩

/-- A path of visits that never enters the rule. -/
abbrev Avoiding (net : Network) (rule : Int) : Config → Config → Prop :=
  Relation.ReflTransGen fun config next => Calls net {} config next ∧ rule ∉ next.entered

theorem Avoiding.calling (path : Avoiding net rule origin config) : Calling net {} origin config := by
  induction path with
  | refl => exact .refl
  | tail _ step inductionHypothesis => exact inductionHypothesis.tail step.1

theorem Avoiding.not_mem_entered
    (path : Avoiding net rule origin config) (fresh : rule ∉ origin.entered) : rule ∉ config.entered := by
  cases path with
  | refl => exact fresh
  | tail _ step => exact step.2

/-- A path that never enters the rule can be put on top of an invocation of the rule. -/
theorem Avoiding.lift
    {home : Int} (shape : net.WellFormed) (placed : Placed net home origin) (path : Avoiding net rule origin config) :
    Calling net {} (origin.above base [rule]) (config.above base [rule]) := by
  induction path with
  | refl => exact .refl
  | tail earlier step inductionHypothesis =>
      have here := (Avoiding.calling earlier).placed shape placed
      refine inductionHypothesis.tail (step.1.lift here fun r entered inside => ?_)
      rw [List.mem_singleton.mp inside] at entered
      exact step.2 entered

/-! ## Entering a rule once more -/

/-- The end of a path of visits from the start of a rule lies on one that never enters the rule, on top of the last
invocation of the rule if there was one. -/
theorem Calling.restart
    {start : StateId} (shape : net.WellFormed) (inside : Network.WellFormed.Inside net start) (regular : net.RegularAt start)
    (path : Calling net {} ⟨some start, [], []⟩ later) :
    ∃ config base under, later = config.above base under ∧
      Avoiding net (net.state start).rule ⟨some start, [], []⟩ config ∧
        (base = [] ∧ under = [] ∨ (net.state start).rule ∈ under ∧ net.ReachesItself start) := by
  have placed := placed_start inside
  induction path with
  | refl => exact ⟨_, [], [], (above_nil _).symm, .refl, Or.inl ⟨rfl, rfl⟩⟩
  | @tail _ later _ calls inductionHypothesis =>
      obtain ⟨config, base, under, rfl, path, below⟩ := inductionHypothesis
      rcases calls.lower (path.calling.placed shape placed) with ⟨next, step, rfl⟩ | ⟨stop, rfl, stops⟩
      · by_cases enters : (net.state start).rule ∈ next.entered
        · -- The path may as well begin with the invocation that was just made.
          obtain ⟨id, state, leads⟩ := step
          obtain ⟨current, currentState, currentInside, _⟩ := path.calling.placed shape placed
          rw [state] at currentState
          obtain rfl := Option.some.inj currentState
          rcases entered_of_leads leads enters with before | ⟨t, member, invokes, sameRule, goal, _⟩
          · exact absurd before (path.not_mem_entered List.not_mem_nil)
          · have again : net.ReachesItself start :=
              ⟨_, path.calling.reaches shape state, t, member, invokes, sameRule⟩
            have target := regular.single again id currentInside.1 t member invokes sameRule
            rw [target] at goal
            refine ⟨⟨some start, [], []⟩, next.stack ++ base, next.entered ++ under, ?_, .refl, Or.inr ⟨?_, again⟩⟩
            · rw [Config.above, goal]
              rfl
            · exact List.mem_append_left under enters
        · exact ⟨next, base, under, rfl, path.tail ⟨step, enters⟩, below⟩
      · rcases below with ⟨rfl, rfl⟩ | ⟨_, again⟩
        · rw [above_nil] at calls
          exact absurd calls (not_calls_of_stop stops)
        · -- The rule was entered once more and now stops, having matched nothing.
          have canEnd : net.CanEnd start := ⟨stop, path.calling.reaches shape rfl, stops⟩
          exact absurd ⟨again, canEnd⟩ regular.guarded

end Above

/-! ## What comes first -/

section Shows

variable {net : Network} {rule link : Int} {id stop follow : StateId} {config next origin : Config} {p : Point}
  {t : Transition} {x : Symbol}

/-- What a point shows is the mark of the end, if nothing has invoked its rule, or a symbol that a transition yields. -/
theorem emits_iff (invoked : p.stack.Invoked) :
    net.Emits {} p x ↔ (p.stack = [] ∧ (net.state p.state).isRuleStop = true ∧ x = Symbol.epsilon) ∨
      ((net.state p.state).isRuleStop = false ∧ ∃ t ∈ (net.state p.state).transitions, t.kind.Yields net.maxSymbol x) := by
  constructor
  · intro emits
    cases emits with
    | halt halts => exact Or.inl ((Network.halts_invoked_iff invoked).mp halts)
    | consume passable member yields => exact Or.inr ⟨Network.passable_iff.mp passable, _, member, yields⟩
    | hit _ _ _ blocked => exact Bool.noConfusion blocked
  · rintro (ends | ⟨goesOn, t, member, yields⟩)
    · exact .halt ((Network.halts_invoked_iff invoked).mpr ends)
    · exact .consume (Network.passable_iff.mpr goesOn) member yields

/-- No transition of the network yields the mark of the end of a rule. -/
def Unmarked (net : Network) : Prop :=
  ∀ id ∈ net.listed, ∀ t ∈ (net.state id).transitions, ¬ t.kind.Yields net.maxSymbol Symbol.epsilon

theorem Traced.offers_iff (traced : Traced net config) :
    Offers net {} config x ↔
      (∃ stop, config = ⟨some stop, [], []⟩ ∧ (net.state stop).isRuleStop = true ∧ x = Symbol.epsilon) ∨
        ∃ id ∈ net.listed, config.state = some id ∧ (net.state id).isRuleStop = false ∧
          ∃ t ∈ (net.state id).transitions, t.kind.Yields net.maxSymbol x := by
  obtain ⟨base, id, state, listed, nested, _⟩ := traced
  obtain ⟨current, chain, entered⟩ := config
  simp only at state nested
  subst state
  constructor
  · rintro ⟨_, same, emits⟩
    obtain rfl := Option.some.inj same
    rcases (emits_iff nested.invoked).mp emits with ⟨empty, stops, mark⟩ | ⟨goesOn, yields⟩
    · simp only at empty
      subst empty
      cases nested with
      | outermost => exact Or.inl ⟨id, rfl, stops, mark⟩
    · exact Or.inr ⟨id, listed, rfl, goesOn, yields⟩
  · rintro (⟨stop, same, stops, mark⟩ | ⟨_, _, same, goesOn, yields⟩)
    · injection same with sameState sameStack _
      obtain rfl := Option.some.inj sameState
      subst sameStack
      exact ⟨id, rfl, (emits_iff CallStack.invoked_nil).mpr (Or.inl ⟨rfl, stops, mark⟩)⟩
    · obtain rfl := Option.some.inj same
      exact ⟨id, rfl, (emits_iff nested.invoked).mpr (Or.inr ⟨goesOn, yields⟩)⟩

/-- On top of an invocation, a configuration shows what it shows without, except for the mark of the end. -/
theorem Placed.offers_above_iff
    (unmarked : Unmarked net) (placed : Placed net rule config) (nonneg : 0 ≤ link) :
    Offers net {} (config.above [link] [rule]) x ↔ Offers net {} config x ∧ x ≠ Symbol.epsilon := by
  obtain ⟨id, state, inside, nested⟩ := placed
  have invoked : CallStack.Invoked (config.stack ++ [link]) := fun other member => by
    rcases List.mem_append.mp member with above | last
    · exact nested.invoked other above
    · rw [List.mem_singleton.mp last]
      exact nonneg
  constructor
  · rintro ⟨_, same, emits⟩
    obtain rfl := Option.some.inj (state.symm.trans same)
    rcases (emits_iff invoked).mp emits with ⟨empty, _⟩ | ⟨goesOn, t, member, yields⟩
    · exact absurd empty (by simp [Config.above])
    · refine ⟨⟨id, state, (emits_iff nested.invoked).mpr (Or.inr ⟨goesOn, t, member, yields⟩)⟩, ?_⟩
      rintro rfl
      exact unmarked id inside.1 t member yields
  · rintro ⟨⟨_, same, emits⟩, real⟩
    obtain rfl := Option.some.inj (state.symm.trans same)
    rcases (emits_iff nested.invoked).mp emits with ⟨_, _, mark⟩ | yields
    · exact absurd mark real
    · exact ⟨id, state, (emits_iff invoked).mpr (Or.inr yields)⟩

/-- Where a rule stops right on its invocation, it returns to where the invoking rule goes on, and no rule is entered any
longer. -/
theorem calls_return_iff
    (shape : net.WellFormed) (stops : (net.state stop).isRuleStop = true) (nonneg : 0 ≤ link)
    (returns : net.ReturnsTo link follow) :
    Calls net {} (Config.above ⟨some stop, [], []⟩ [link] [(net.state stop).rule]) next ↔ next = ⟨some follow, [], []⟩ := by
  have followed := shape.followState_eq_ok_iff.mpr returns
  constructor
  · rintro ⟨_, same, leads⟩
    obtain rfl := Option.some.inj same
    cases leads with
    | returned stack _ _ also =>
        injection stack with sameLink sameOuter
        subst sameLink sameOuter
        rw [followed] at also
        obtain rfl := Except.ok.inj also
        simp [Config.above]
    | followed passable _ _ =>
        have goesOn := Network.passable_iff.mp passable
        exact Bool.noConfusion (stops.symm.trans goesOn)
  · rintro rfl
    have returned := @Leads.returned net {} stop (Config.above ⟨some stop, [], []⟩ [link] [(net.state stop).rule]) link []
      (some follow) rfl nonneg stops followed
    simp only [Config.above, List.nil_append, List.erase_cons_head] at returned
    exact ⟨stop, rfl, returned⟩

/-- A state that invokes a rule shows what the invocation does, and nothing else. -/
theorem shows_invoking_iff
    (shape : net.WellFormed) (listed : id ∈ net.listed) (goesOn : (net.state id).isRuleStop = false)
    (member : t ∈ (net.state id).transitions) (invokes : t.isRule = true) :
    Shows net {} ⟨some id, [], []⟩ x ↔
      Shows net {} (Config.above ⟨some t.target, [], []⟩ [(net.state id).number] [(net.state t.target).rule]) x := by
  have alone := (shape.invocations id listed t member invokes).1
  constructor
  · rintro ⟨config, path, offers⟩
    rcases Relation.ReflTransGen.cases_head path with rfl | ⟨next, ⟨_, same, leads⟩, rest⟩
    · obtain ⟨_, same, emits⟩ := offers
      obtain rfl := Option.some.inj same
      rcases (emits_iff CallStack.invoked_nil).mp emits with ⟨_, stops, _⟩ | ⟨_, u, inState, yields⟩
      · exact Bool.noConfusion (stops.symm.trans goesOn)
      · simp only at inState
        rw [alone, List.mem_singleton] at inState
        subst inState
        have consumes := isEpsilon_of_yields yields
        exact Bool.noConfusion (consumes.symm.trans (Network.isEpsilon_of_isRule invokes))
    · obtain rfl := Option.some.inj same
      cases leads with
      | returned stack _ _ _ => exact nomatch stack
      | followed _ inState followed =>
          rw [alone, List.mem_singleton] at inState
          subst inState
          cases followed with
          | passed passes => exact Bool.noConfusion (passes.2.1.symm.trans invokes)
          | entered _ _ => exact ⟨config, rest, offers⟩
  · rintro ⟨config, path, offers⟩
    have passable : net.Passable {} ⟨id, []⟩ := Network.passable_iff.mpr goesOn
    have enters : Calls net {} ⟨some id, [], []⟩
        (Config.above ⟨some t.target, [], []⟩ [(net.state id).number] [(net.state t.target).rule]) :=
      ⟨id, rfl, .followed passable member (.entered invokes List.not_mem_nil)⟩
    exact ⟨config, .head enters path, offers⟩

/-- On top of an invocation, the start of a rule shows what it shows without, and instead of the mark of the end what
follows the invocation. -/
theorem shows_invoked_iff
    {start : StateId} (shape : net.WellFormed) (unmarked : Unmarked net) (inside : Network.WellFormed.Inside net start)
    (regular : net.RegularAt start) (nonneg : 0 ≤ link) (returns : net.ReturnsTo link follow) :
    Shows net {} (Config.above ⟨some start, [], []⟩ [link] [(net.state start).rule]) x ↔
      (Shows net {} ⟨some start, [], []⟩ x ∧ x ≠ Symbol.epsilon) ∨
        (Shows net {} ⟨some start, [], []⟩ Symbol.epsilon ∧ Shows net {} ⟨some follow, [], []⟩ x) := by
  have placed := placed_start inside
  have sameRule : ∀ {stop}, Calling net {} ⟨some start, [], []⟩ ⟨some stop, [], []⟩ →
      (net.state stop).rule = (net.state start).rule := fun path =>
    shape.rule_eq_of_reaches inside (path.reaches shape rfl)
  constructor
  · rintro ⟨later, path, offers⟩
    rcases path.lower shape placed with ⟨config, inner, rfl⟩ | ⟨stop, next, inner, stops, left, beyond⟩
    · obtain ⟨shown, real⟩ := ((inner.placed shape placed).offers_above_iff unmarked nonneg).mp offers
      exact Or.inl ⟨⟨config, inner, shown⟩, real⟩
    · have ends : Offers net {} ⟨some stop, [], []⟩ Symbol.epsilon :=
        (inner.placed shape placed).traced.offers_iff.mpr (Or.inl ⟨stop, rfl, stops, rfl⟩)
      rw [← sameRule inner] at left
      obtain rfl := (calls_return_iff shape stops nonneg returns).mp left
      exact Or.inr ⟨⟨_, inner, ends⟩, later, beyond, offers⟩
  · rintro (⟨⟨later, path, offers⟩, real⟩ | ⟨⟨later, path, ends⟩, ⟨last, beyond, offers⟩⟩)
    · -- A path that enters the rule once more is cut off on the invocation, so one is taken that does not.
      obtain ⟨config, base, under, rfl, inner, _⟩ := path.restart shape inside regular
      have here := inner.calling.placed shape placed
      have shown : Offers net {} config x := by
        rcases (path.placed shape placed).traced.offers_iff.mp offers with ⟨_, _, _, mark⟩ | consumes
        · exact absurd mark real
        · exact here.traced.offers_iff.mpr (Or.inr consumes)
      exact ⟨_, inner.lift shape placed, (here.offers_above_iff unmarked nonneg).mpr ⟨shown, real⟩⟩
    · have shown := (path.placed shape placed).traced.offers_iff.mp ends
      rcases shown with ⟨stop, bare, stops, _⟩ | ⟨id, listed, _, _, t, member, yields⟩
      · obtain ⟨config, base, under, same, inner, _⟩ := path.restart shape inside regular
        obtain rfl := eq_of_above_eq (same.symm.trans bare)
        have left := (calls_return_iff shape stops nonneg returns).mpr rfl
        rw [sameRule inner.calling] at left
        have invoked : Calling net {} (Config.above ⟨some start, [], []⟩ [link] [(net.state start).rule])
            (Config.above ⟨some stop, [], []⟩ [link] [(net.state start).rule]) :=
          inner.lift shape placed
        exact ⟨last, (invoked.tail left).trans beyond, offers⟩
      · exact absurd yields (unmarked id listed t member)

end Shows

end Search

end GrammarNet
