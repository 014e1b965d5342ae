import GrammarNet.Proofs.Lookahead.Exact
import GrammarNet.Proofs.Search.Descent
import GrammarNet.Proofs.Search.Direct

/-!
# The set of called rules

Every call of the search leaves the set of called rules behind as it found it, and never misses a rule in it. On a network
whose states keep to their rules, the set mirrors the chain: at every call it holds the rules that were entered with the
links that are still on the chain, each of them once, and the rule that a return takes out is the one that was entered last.
-/

namespace GrammarNet

namespace Network

/-- States keep to their rules: what `WellFormed` says, wherever rules are entered, and whatever else leaves a state that
invokes one. -/
structure KeepsRules (net : Network) : Prop where
  /-- Every state sits in the slot of its own number. -/
  numbered : ∀ id ∈ net.listed, net.slot? (net.state id).number = some id
  /-- Transitions lead to states of the network, and none to the start of a mode. -/
  targets : ∀ id ∈ net.listed, ∀ t ∈ (net.state id).transitions,
    t.target ∈ net.listed ∧ (net.state t.target).kind ≠ .tokensStart
  /-- The invoking rule goes on in a state of its own, which is not the start of a mode. -/
  follows : ∀ id ∈ net.listed, ∀ t ∈ (net.state id).transitions, t.isRule = true →
    ∃ next ∈ net.listed, t.kind.follow? = some next ∧ (net.state next).rule = (net.state id).rule ∧
      (net.state next).kind ≠ .tokensStart
  /-- All other transitions stay within a rule, unless they leave the stop of a rule or the start of a mode. -/
  within : ∀ id ∈ net.listed, (net.state id).kind ≠ .ruleStop → (net.state id).kind ≠ .tokensStart →
    ∀ t ∈ (net.state id).transitions, t.isRule = false → (net.state t.target).rule = (net.state id).rule

section KeepsRules

variable {net : Network} {link : Int} {next : Option StateId}

theorem WellFormed.keepsRules (shape : net.WellFormed) : net.KeepsRules where
  numbered := shape.numbered
  targets := shape.targets
  follows := shape.follows
  within := shape.within

/-- The state to return to is there, and it belongs to the rule of the state that the link names. -/
theorem KeepsRules.followState (keeps : net.KeepsRules) (followed : net.followState link = .ok next) :
    ∃ invoker target, net.slot? link = some invoker ∧ next = some target ∧ target ∈ net.listed ∧
      (net.state target).rule = (net.state invoker).rule ∧ (net.state target).kind ≠ .tokensStart := by
  unfold Network.followState at followed
  cases found : net.slot? link with
  | none =>
      rw [found] at followed
      contradiction
  | some invoker =>
      rw [found] at followed
      dsimp only at followed
      split at followed
      next goal index precedence follow head =>
        obtain rfl := Except.ok.inj followed
        obtain ⟨target, listed, follows, sameRule, kind⟩ :=
          keeps.follows invoker (mem_listed_of_slot? found) _ (List.mem_of_head? head) rfl
        exact ⟨invoker, target, rfl, follows, listed, sameRule, kind⟩
      next => contradiction

end KeepsRules

end Network

namespace Search

open SharedM

/-- The state belongs to the rule that was entered last, by the state that the innermost link names. -/
theorem Nested.innermost
    {net : Network} {base : Int} {id : StateId} {link rule : Int} {outer : CallStack} {entered : List Int}
    (nested : Nested net base id (link :: outer) (rule :: entered)) :
    ∃ invoker, net.slot? link = some invoker ∧ (net.state id).rule = rule ∧ Nested net base invoker outer entered := by
  cases nested with
  | within found _ _ same outward => exact ⟨_, found, same, outward⟩

/-- The call is in order. Its chain has the links that were pushed and not popped on top of what is left of `base`, and each
of these links invokes the rule that was entered with it, in the rule that was entered before; the called rules are these
rules, each of them once. -/
structure InOrder (net : Network) (base : CallStack) (call : Call) (called : Finset Int) : Prop where
  chain : ∃ popped, call.stack = call.pushed.map Prod.fst ++ base.drop popped
  called : called = (call.pushed.map Prod.snd).toFinset
  once : (call.pushed.map Prod.snd).Nodup
  nested : ∃ id rule, call.state = some id ∧ id ∈ net.listed ∧
    ((net.state id).kind = .tokensStart → call.pushed = []) ∧
    Nested net rule id (call.pushed.map Prod.fst) (call.pushed.map Prod.snd)

section InOrder

variable {net : Network} {mode : SearchMode} {base : CallStack} {call next : Call} {called later : Finset Int}
  {id : StateId}

theorem inOrder_start (listed : id ∈ net.listed) (base : CallStack) : InOrder net base ⟨some id, base, []⟩ ∅ where
  chain := ⟨0, rfl⟩
  called := rfl
  once := List.nodup_nil
  nested := ⟨id, _, rfl, listed, fun _ => rfl, .outermost rfl⟩

/-- The state of a call belongs to the rule that was entered last. -/
theorem InOrder.rule_eq
    (order : InOrder net base call called) (state : call.state = some id) {link rule : Int} {outer : List (Int × Int)}
    (pushed : call.pushed = (link, rule) :: outer) : (net.state id).rule = rule := by
  obtain ⟨current, _, sameState, _, _, nested⟩ := order.nested
  rw [state] at sameState
  obtain rfl := Option.some.inj sameState
  rw [pushed] at nested
  obtain ⟨_, _, same, _⟩ := nested.innermost
  exact same

/-- A transition within a rule leaves everything as it is, and one at the outermost level may lead into another rule. -/
theorem InOrder.passed
    (keeps : net.KeepsRules) (order : InOrder net base call called) (state : call.state = some id)
    (passable : net.Passable mode ⟨id, call.stack⟩) {t : Transition} (member : t ∈ (net.state id).transitions)
    (passes : mode.Passes t.kind) : InOrder net base { call with state := some t.target } called where
  chain := order.chain
  called := order.called
  once := order.once
  nested := by
    obtain ⟨current, rule, sameState, listed, uninvoked, nested⟩ := order.nested
    rw [state] at sameState
    obtain rfl := Option.some.inj sameState
    obtain ⟨target, kind⟩ := keeps.targets id listed t member
    suffices inside : ∃ rule, Nested net rule t.target (call.pushed.map Prod.fst) (call.pushed.map Prod.snd) by
      obtain ⟨rule, nested⟩ := inside
      exact ⟨t.target, rule, rfl, target, fun begins => absurd begins kind, nested⟩
    obtain ⟨popped, chain⟩ := order.chain
    cases pushed : call.pushed with
    | nil => exact ⟨_, .outermost rfl⟩
    | cons top outer =>
        rw [pushed] at nested chain
        have begins : (net.state id).kind ≠ .tokensStart := by
          intro begins
          have empty := uninvoked begins
          rw [pushed] at empty
          contradiction
        obtain ⟨_, found, _, _⟩ := nested.innermost
        have invoked : 0 ≤ top.1 := Network.nonneg_of_slot? found
        -- Under a link that was pushed, the stop of a rule returns and is not left along a transition.
        rw [chain] at passable
        have goesOn : (net.state id).kind ≠ .ruleStop := by
          intro stops
          have ends : (net.state id).isRuleStop = true := by simp [State.isRuleStop, stops]
          exact Network.not_passable_invoked invoked ends passable
        exact ⟨rule, nested.of_rule_eq (keeps.within id listed goesOn begins t member passes.2.1)⟩

theorem InOrder.entered
    (keeps : net.KeepsRules) (order : InOrder net base call called) (state : call.state = some id) {t : Transition}
    (member : t ∈ (net.state id).transitions) (invokes : t.isRule = true) (fresh : (net.state t.target).rule ∉ called) :
    InOrder net base
      ⟨some t.target, call.stack.push (net.state id).number,
        ((net.state id).number, (net.state t.target).rule) :: call.pushed⟩
      (insert (net.state t.target).rule called) := by
  obtain ⟨⟨popped, chain⟩, same, once, current, rule, sameState, listed, _, nested⟩ := order
  rw [state] at sameState
  obtain rfl := Option.some.inj sameState
  obtain ⟨target, kind⟩ := keeps.targets id listed t member
  refine ⟨⟨popped, ?_⟩, ?_, ?_, t.target, rule, rfl, target, fun begins => absurd begins kind, ?_⟩
  · rw [chain]
    rfl
  · rw [same, List.map_cons, List.toFinset_cons]
  · rw [same, List.mem_toFinset] at fresh
    exact List.nodup_cons.mpr ⟨fresh, once⟩
  · exact .within (keeps.numbered id listed) member invokes rfl nested

/-- A return takes the last link that was pushed, and the rule that was entered with it; when none is left, it takes one of
those at the start and no rule. -/
theorem InOrder.returned
    (keeps : net.KeepsRules) (order : InOrder net base call called) (state : call.state = some id) {link : Int}
    {outer : CallStack} (stack : call.stack = link :: outer) {target : Option StateId}
    (followed : net.followState link = .ok target) :
    InOrder net base ⟨target, outer, call.pushed.tail⟩ (called.erase (net.state id).rule) := by
  obtain ⟨invoker, goal, found, rfl, listed, sameRule, kind⟩ := keeps.followState followed
  obtain ⟨⟨popped, chain⟩, same, once, current, rule, sameState, _, _, nested⟩ := order
  rw [state] at sameState
  obtain rfl := Option.some.inj sameState
  rw [stack] at chain
  cases pushed : call.pushed with
  | nil =>
      rw [pushed] at chain same
      subst same
      refine ⟨⟨popped + 1, ?_⟩, rfl, List.nodup_nil, goal, _, rfl, listed, fun _ => rfl, .outermost rfl⟩
      rw [List.map_nil, List.nil_append] at chain
      show outer = base.drop (popped + 1)
      rw [← List.tail_drop, ← chain]
      rfl
  | cons top rest =>
      rw [pushed] at nested chain same once
      obtain ⟨source, alsoFound, here, outward⟩ := nested.innermost
      obtain ⟨rfl, remains⟩ := List.cons.inj chain
      obtain ⟨fresh, others⟩ := List.nodup_cons.mp once
      rw [found] at alsoFound
      obtain rfl := Option.some.inj alsoFound
      refine ⟨⟨popped, remains⟩, ?_, others, goal, rule, rfl, listed, fun begins => absurd begins kind,
        outward.of_rule_eq sameRule⟩
      rw [same, List.map_cons, List.toFinset_cons, here]
      exact Finset.erase_insert (fun member => fresh (List.mem_toFinset.mp member))

theorem InOrder.makes
    (keeps : net.KeepsRules) (order : InOrder net base call called) (makes : Makes net mode call called next later) :
    InOrder net base next later := by
  cases makes with
  | passed state passable member passes => exact order.passed keeps state passable member passes
  | entered state _ member invokes fresh => exact order.entered keeps state member invokes fresh
  | returned state stack _ _ followed => exact order.returned keeps state stack followed

/-! ## Configurations in order -/

/-- The rules that a configuration has entered are those of the links that were pushed and not popped, in their order. -/
def Aligned (net : Network) (base : CallStack) (config : Config) : Prop :=
  ∃ pushed, config.entered = pushed.map Prod.snd ∧
    InOrder net base ⟨config.state, config.stack, pushed⟩ config.entered.toFinset

theorem aligned_start (listed : id ∈ net.listed) (base : CallStack) : Aligned net base ⟨some id, base, []⟩ :=
  ⟨[], rfl, inOrder_start listed base⟩

/-- What a configuration leads to, the call for it makes; and the rule that is erased is the one that comes first. -/
theorem Calls.aligned
    {config further : Config} (keeps : net.KeepsRules) (aligned : Aligned net base config)
    (calls : Calls net mode config further) : Aligned net base further := by
  obtain ⟨pushed, entered, order⟩ := aligned
  obtain ⟨id, state, leads⟩ := calls
  cases leads with
  | @returned link outer next stack invoked stops followed =>
      have left := order.returned keeps state stack followed
      have erased : config.entered.erase (net.state id).rule = pushed.tail.map Prod.snd := by
        rw [entered]
        cases pushed with
        | nil => rfl
        | cons top outer =>
            rw [order.rule_eq state rfl, List.map_cons, List.erase_cons_head]
            rfl
      refine ⟨pushed.tail, erased, ?_⟩
      have same := left.called
      rw [← erased] at same
      exact same ▸ left
  | @followed t _ passable member followed =>
      cases followed with
      | passed passes => exact ⟨pushed, entered, order.passed keeps state passable member passes⟩
      | entered invokes fresh =>
          have inner := order.entered keeps state member invokes (fun called => fresh (List.mem_toFinset.mp called))
          refine ⟨((net.state id).number, (net.state t.target).rule) :: pushed, ?_, ?_⟩
          · rw [entered]
            rfl
          · rw [List.toFinset_cons]
            exact inner

theorem Calling.aligned
    {config further : Config} (keeps : net.KeepsRules) (aligned : Aligned net base config)
    (path : Calling net mode config further) : Aligned net base further := by
  induction path with
  | refl => exact aligned
  | tail _ calls inductionHypothesis => exact calls.aligned keeps inductionHypothesis

end InOrder

end Search

namespace Lookahead

open SharedM Search

/-- A call leaves the called rules behind as it found them, whether it returns or ends early, it never misses a rule that it
takes out of them, and it ends early for its depth only if it may not be nested deeply enough; the recursion finds what the
search finds. On a network whose states keep to their rules, all calls of a run are in order: the called rules are those of
the links that the run has pushed and not popped, each of them pushed once, and the state belongs to the one on top. The
configurations of the search list these rules in the order of the links. -/
theorem called_rules_mirror_chain (net : Network) (mode : SearchMode) :
    (∀ (call : Call) (now : Shared),
      (∃ enough, ∀ depth, enough ≤ depth → ((descend net mode depth call).runOn now).1 ≠ .error .tooDeep) ∧
      ∀ depth, ((descend net mode depth call).runOn now).2.called = now.called ∧
        ∀ rule, ((descend net mode depth call).runOn now).1 ≠ .error (.notCalled rule)) ∧
    (∀ (state : Option StateId) (stack : CallStack), ∃ enough, ∀ depth, enough ≤ depth →
      Shared.yielded ((descend net mode depth ⟨state, stack, []⟩).runOn {}) =
        (net.lookahead mode state stack).mapError .fault) ∧
    (net.KeepsRules → ∀ id ∈ net.listed, ∀ stack : CallStack,
      (∀ depth, ∀ made ∈ ((descend net mode depth ⟨some id, stack, []⟩).runOn {}).2.made,
        InOrder net stack made.1 made.2 ∧
        ∀ link rule outer, made.1.pushed = (link, rule) :: outer →
          ∃ current, made.1.state = some current ∧ (net.state current).rule = rule) ∧
      ∀ search config, Search.Reached net mode (Search.start (some id) stack) search →
        .visit config ∈ search.pending → Aligned net stack config) := by
  refine ⟨fun call now => ⟨exists_descend_ne_tooDeep net mode call now, fun depth => ?_⟩, exists_descend_eq net mode,
    fun keeps id listed stack => ⟨fun depth made member => ?_, fun search config reached pending => ?_⟩⟩
  · have keeps : Keeps (fun _ _ => True) now.called (descend net mode depth call) :=
      keeps_descend (fun _ _ => trivial) depth trivial
    obtain ⟨stays, complete, _⟩ := keeps now rfl
    exact ⟨stays, complete⟩
  · have run : Keeps (InOrder net stack) ∅ (descend net mode depth ⟨some id, stack, []⟩) :=
      keeps_descend (fun order makes => order.makes keeps makes) depth (inOrder_start listed stack)
    obtain ⟨_, _, records⟩ := run {} rfl
    have order : InOrder net stack made.1 made.2 := (records made member).resolve_left List.not_mem_nil
    refine ⟨order, fun link rule outer pushed => ?_⟩
    obtain ⟨current, _, state, _⟩ := order.nested
    exact ⟨current, state, order.rule_eq state pushed⟩
  · exact (reached.calling pending).aligned keeps (aligned_start listed stack)

/-- In the middle of a left-recursive rule, which may return below the callers that are known at first. -/
theorem called_rules_mirror_chain_leftRecursion :
    leftRecursion.KeepsRules ∧ 7 ∈ leftRecursion.listed ∧
      ∀ (depth : Nat), ∀ made ∈ ((descend leftRecursion {} depth ⟨some 7, [4, 1, -1], []⟩).runOn {}).2.made,
        InOrder leftRecursion [4, 1, -1] made.1 made.2 := by
  have keeps : leftRecursion.KeepsRules := leftRecursion_regular.shape.keepsRules
  have listed : 7 ∈ leftRecursion.listed := by decide
  obtain ⟨_, _, ordered⟩ := called_rules_mirror_chain leftRecursion {}
  obtain ⟨calls, _⟩ := ordered keeps 7 listed [4, 1, -1]
  exact ⟨keeps, listed, fun depth made member => (calls depth made member).1⟩

end Lookahead

end GrammarNet
