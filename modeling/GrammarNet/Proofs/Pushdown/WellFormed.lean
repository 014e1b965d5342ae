import GrammarNet.Proofs.Pushdown.Basic

/-!
# Well-formed networks

What a network of rules looks like: its states sit in their slots, a rule is invoked by the only transition of a state,
and all other transitions stay within a rule. On such a network, every path from a state of the network stays in it,
and a path that returns from all it has invoked is back in the rule in which it began.
-/

namespace GrammarNet

namespace Network

/-- The states that the slots of a network hold. -/
def listed (net : Network) : List StateId := net.slots.toList.filterMap id

theorem mem_listed_of_slot? {net : Network} {number : Int} {id : StateId} (found : net.slot? number = some id) :
    id ∈ net.listed := by
  unfold slot? at found
  split at found
  · have entry : net.slots[number.toNat]? = some (some id) := Option.join_eq_some_iff.mp found
    have member : some id ∈ net.slots.toList := Array.mem_toList_iff.mpr (Array.mem_of_getElem? entry)
    exact List.mem_filterMap.mpr ⟨some id, member, rfl⟩
  · contradiction

theorem nonneg_of_slot? {net : Network} {number : Int} {id : StateId} (found : net.slot? number = some id) :
    0 ≤ number := by
  unfold slot? at found
  split at found
  · assumption
  · contradiction

/-- The network of a parser that lists the given states, numbered in their order. -/
def ofStates (greatest : Symbol) (states : List State) : Network where
  kind := .parser
  maxSymbol := greatest
  store := (states.zipIdx.map fun (s, number) => { s with number := number }).toArray
  slots := ((List.range states.length).map some).toArray

/-! ## Shape -/

/-- The shape of a network of rules. -/
structure WellFormed (net : Network) : Prop where
  /-- Every state sits in the slot of its own number. -/
  numbered : ∀ id ∈ net.listed, net.slot? (net.state id).number = some id
  /-- Transitions lead to states of the network, and none to the start of a mode. -/
  targets : ∀ id ∈ net.listed, ∀ t ∈ (net.state id).transitions,
    t.target ∈ net.listed ∧ (net.state t.target).kind ≠ .tokensStart
  /-- A transition that invokes a rule is the only one of its state, and leads to the start of a rule. -/
  invocations : ∀ id ∈ net.listed, ∀ t ∈ (net.state id).transitions, t.isRule = true →
    (net.state id).transitions = [t] ∧ (net.state t.target).kind = .ruleStart
  /-- The invoking rule goes on in a state of its own, which is not the start of a mode. -/
  follows : ∀ id ∈ net.listed, ∀ t ∈ (net.state id).transitions, t.isRule = true →
    ∃ next ∈ net.listed, t.kind.follow? = some next ∧ (net.state next).rule = (net.state id).rule ∧
      (net.state next).kind ≠ .tokensStart
  /-- All other transitions stay within a rule, unless they leave the stop of a rule or the start of a mode. -/
  within : ∀ id ∈ net.listed, (net.state id).kind ≠ .ruleStop → (net.state id).kind ≠ .tokensStart →
    ∀ t ∈ (net.state id).transitions, t.isRule = false → (net.state t.target).rule = (net.state id).rule

theorem wellFormed_iff (net : Network) :
    net.WellFormed ↔
      (∀ id ∈ net.listed, net.slot? (net.state id).number = some id) ∧
      (∀ id ∈ net.listed, ∀ t ∈ (net.state id).transitions,
        t.target ∈ net.listed ∧ (net.state t.target).kind ≠ .tokensStart) ∧
      (∀ id ∈ net.listed, ∀ t ∈ (net.state id).transitions, t.isRule = true →
        (net.state id).transitions = [t] ∧ (net.state t.target).kind = .ruleStart) ∧
      (∀ id ∈ net.listed, ∀ t ∈ (net.state id).transitions, t.isRule = true →
        ∃ next ∈ net.listed, t.kind.follow? = some next ∧ (net.state next).rule = (net.state id).rule ∧
          (net.state next).kind ≠ .tokensStart) ∧
      ∀ id ∈ net.listed, (net.state id).kind ≠ .ruleStop → (net.state id).kind ≠ .tokensStart →
        ∀ t ∈ (net.state id).transitions, t.isRule = false → (net.state t.target).rule = (net.state id).rule :=
  ⟨fun shape => ⟨shape.numbered, shape.targets, shape.invocations, shape.follows, shape.within⟩,
    fun ⟨numbered, targets, invocations, follows, within⟩ => ⟨numbered, targets, invocations, follows, within⟩⟩

instance (net : Network) : Decidable net.WellFormed := decidable_of_iff _ net.wellFormed_iff.symm

/-! ## Invocations -/

/-- A state in slot `link` invokes a rule. -/
def Invokes (net : Network) (link : Int) : Prop :=
  ∃ invoker, net.slot? link = some invoker ∧ ∃ t ∈ (net.state invoker).transitions, t.isRule = true

instance (net : Network) (link : Int) : Decidable (net.Invokes link) :=
  inferInstanceAs (Decidable (∃ invoker, net.slot? link = some invoker ∧
    ∃ t ∈ (net.state invoker).transitions, t.isRule = true))

theorem isRule_of_follow? {t : Transition} {next : StateId} (follow : t.kind.follow? = some next) :
    t.isRule = true := by
  obtain ⟨target, kind⟩ := t
  cases kind <;> simp_all [TransitionKind.follow?, Transition.isRule, TransitionKind.isRule]

namespace WellFormed

variable {net : Network} {mode : SearchMode} {id next : StateId} {link : Int} {p q : Point}

theorem nonneg_number (shape : net.WellFormed) (listed : id ∈ net.listed) : 0 ≤ (net.state id).number :=
  nonneg_of_slot? (shape.numbered id listed)

theorem eq_of_number_eq
    (shape : net.WellFormed) (listed : id ∈ net.listed) (nextListed : next ∈ net.listed)
    (same : (net.state id).number = (net.state next).number) : id = next := by
  have found := shape.numbered id listed
  rw [same, shape.numbered next nextListed] at found
  exact (Option.some.inj found).symm

theorem invokes_number
    (shape : net.WellFormed) (listed : id ∈ net.listed) {t : Transition}
    (member : t ∈ (net.state id).transitions) (invokes : t.isRule = true) : net.Invokes (net.state id).number :=
  ⟨id, shape.numbered id listed, t, member, invokes⟩

/-- The state to which a rule returns belongs to the network and to the rule that invoked it. -/
theorem returnsTo
    (shape : net.WellFormed) (returns : net.ReturnsTo link next) :
    next ∈ net.listed ∧ (net.state next).kind ≠ .tokensStart ∧
      ∃ invoker, net.slot? link = some invoker ∧ (net.state next).rule = (net.state invoker).rule := by
  obtain ⟨invoker, found, t, member, follow⟩ := returns
  obtain ⟨goal, goalListed, goalFollow, sameRule, kind⟩ :=
    shape.follows invoker (mem_listed_of_slot? found) t member (isRule_of_follow? follow)
  rw [follow] at goalFollow
  injection goalFollow with same
  subst same
  exact ⟨goalListed, kind, invoker, found, sameRule⟩

/-- Where the code looks for the state to return to, it finds the one of the invocation. -/
theorem followState_eq_ok_iff (shape : net.WellFormed) :
    net.followState link = .ok (some next) ↔ net.ReturnsTo link next := by
  unfold followState ReturnsTo
  cases found : net.slot? link with
  | none => simp
  | some invoker =>
      have alone := shape.invocations invoker (mem_listed_of_slot? found)
      simp only [Option.some.injEq, exists_eq_left']
      constructor
      · intro followed
        split at followed
        · rename_i target index precedence follow head
          injection followed with same
          subst same
          exact ⟨_, List.mem_of_head? head, rfl⟩
        · contradiction
      · rintro ⟨t, member, follow⟩
        rw [(alone t member (isRule_of_follow? follow)).1]
        obtain ⟨target, kind⟩ := t
        cases kind <;> simp_all [TransitionKind.follow?]

/-- A rule that was invoked returns. -/
theorem exists_returnsTo (shape : net.WellFormed) (invokes : net.Invokes link) : ∃ next, net.ReturnsTo link next := by
  obtain ⟨invoker, found, t, member, rule⟩ := invokes
  obtain ⟨next, _, follow, _⟩ := shape.follows invoker (mem_listed_of_slot? found) t member rule
  exact ⟨next, invoker, found, t, member, follow⟩

/-- The search for the state to return to never finds a transition that leaves it open. -/
theorem followState_ne_ok_none (shape : net.WellFormed) : net.followState link ≠ .ok none := by
  unfold followState
  cases found : net.slot? link with
  | none => simp
  | some invoker =>
      intro followed
      simp only at followed
      split at followed
      · rename_i target index precedence follow head
        injection followed with same
        subst same
        obtain ⟨next, _, follow, _⟩ :=
          shape.follows invoker (mem_listed_of_slot? found) _ (List.mem_of_head? head) rfl
        simp [TransitionKind.follow?] at follow
      · contradiction

/-! ## Moves stay in the network -/

/-- A state of the network that does not start a mode. -/
def Inside (net : Network) (id : StateId) : Prop := id ∈ net.listed ∧ (net.state id).kind ≠ .tokensStart

theorem inside_of_move (shape : net.WellFormed) (listed : p.state ∈ net.listed) (move : net.Move mode p q) :
    Inside net q.state := by
  cases move with
  | pass _ member _ => exact shape.targets _ listed _ member
  | enter _ member _ => exact shape.targets _ listed _ member
  | leave _ _ returns =>
      obtain ⟨nextListed, kind, _⟩ := shape.returnsTo returns
      exact ⟨nextListed, kind⟩

theorem listed_of_reaches
    (shape : net.WellFormed) (listed : p.state ∈ net.listed) (reaches : net.Reaches mode p q) :
    q.state ∈ net.listed :=
  Reaches.invariant (P := fun p => p.state ∈ net.listed) (fun here move => (shape.inside_of_move here move).1)
    reaches listed

/-- The invocation that was made first on the way to a point, or the point itself if all have returned, belongs to
`rule`. -/
def Grounded (net : Network) (rule : Int) : StateId → CallStack → Prop
  | id, [] => (net.state id).rule = rule
  | _, link :: outer => ∃ invoker, net.slot? link = some invoker ∧ Grounded net rule invoker outer

theorem Grounded.of_rule_eq
    {rule : Int} {stack : CallStack} (grounded : Grounded net rule id stack)
    (same : (net.state next).rule = (net.state id).rule) : Grounded net rule next stack := by
  cases stack with
  | nil => exact same.trans grounded
  | cons link outer => exact grounded

theorem grounded_of_move
    {rule : Int} (shape : net.WellFormed) (inside : Inside net p.state)
    (grounded : Grounded net rule p.state p.stack) (move : net.Move {} p q) :
    Grounded net rule q.state q.stack := by
  cases move with
  | @pass _ t passable member passes =>
      obtain ⟨id, stack⟩ := p
      -- With an innermost link the rule of the state does not matter; without one the state is no rule stop.
      cases stack with
      | cons link outer => exact grounded
      | nil =>
          have goesOn : (net.state id).kind ≠ .ruleStop := by
            intro stops
            exact passable (Or.inr (by simp [State.isRuleStop, stops]))
          exact grounded.of_rule_eq (shape.within id inside.1 goesOn inside.2 t member passes.2.1)
  | enter _ member _ => exact ⟨p.state, shape.numbered _ inside.1, grounded⟩
  | leave _ _ returns =>
      obtain ⟨invoker, found, outside⟩ := grounded
      obtain ⟨_, _, other, otherFound, sameRule⟩ := shape.returnsTo returns
      rw [found] at otherFound
      injection otherFound with same
      subst same
      exact outside.of_rule_eq sameRule

/-- A path that has returned from all it has invoked is back in the rule in which it began. -/
theorem rule_eq_of_reaches
    (shape : net.WellFormed) (inside : Inside net id) (reaches : net.Reaches {} ⟨id, []⟩ ⟨next, []⟩) :
    (net.state next).rule = (net.state id).rule := by
  have kept : ∀ {p q : Point}, Inside net p.state ∧ Grounded net (net.state id).rule p.state p.stack →
      net.Move {} p q → Inside net q.state ∧ Grounded net (net.state id).rule q.state q.stack :=
    fun here move => ⟨shape.inside_of_move here.1.1 move, shape.grounded_of_move here.1 here.2 move⟩
  exact (reaches.invariant kept ⟨inside, rfl⟩).2

end WellFormed

/-- The links of a chain that are invocations invoke a rule. -/
def Invoking (net : Network) (stack : CallStack) : Prop := ∀ link ∈ stack, 0 ≤ link → net.Invokes link

instance (net : Network) (stack : CallStack) : Decidable (net.Invoking stack) :=
  inferInstanceAs (Decidable (∀ link ∈ stack, 0 ≤ link → net.Invokes link))

section Invoking

variable {net : Network} {mode : SearchMode}

theorem invoking_unknown : net.Invoking .unknown := fun _ member => absurd member List.not_mem_nil

theorem invoking_root : net.Invoking .root := by
  intro link member nonneg
  rw [List.mem_singleton.mp member] at nonneg
  contradiction

theorem invoking_of_reaches
    (shape : net.WellFormed) {p q : Point} (listed : p.state ∈ net.listed) (invoking : net.Invoking p.stack)
    (reaches : net.Reaches mode p q) : net.Invoking q.stack := by
  have kept : ∀ {p q : Point}, p.state ∈ net.listed ∧ net.Invoking p.stack → net.Move mode p q →
      q.state ∈ net.listed ∧ net.Invoking q.stack := by
    rintro p q ⟨listed, invoking⟩ move
    refine ⟨(shape.inside_of_move listed move).1, ?_⟩
    cases move with
    | pass => exact invoking
    | enter _ member invokes =>
        intro link inStack nonneg
        rcases List.mem_cons.mp inStack with rfl | earlier
        · exact shape.invokes_number listed member invokes
        · exact invoking link earlier nonneg
    | leave => exact fun link inStack nonneg => invoking link (List.mem_cons_of_mem _ inStack) nonneg
  exact (reaches.invariant kept ⟨listed, invoking⟩).2

/-- Where all links invoke a rule, no path fails. -/
theorem not_fails_of_invoking
    (shape : net.WellFormed) {p : Point} (invoking : net.Invoking p.stack) {fault : Fault} :
    ¬ net.Fails p fault := by
  rintro ⟨link, outer, stack, nonneg, _, failed⟩
  obtain ⟨next, returns⟩ := shape.exists_returnsTo (invoking link (by simp [stack]) nonneg)
  rw [shape.followState_eq_ok_iff.mpr returns] at failed
  contradiction

end Invoking

/-! ## Recursion that consumes nothing -/

/-- From a start of the rule, an invocation of the rule can be reached without consuming a symbol. -/
def LeftRecursive (net : Network) (rule : Int) : Prop :=
  ∃ entry ∈ net.listed, (net.state entry).kind = .ruleStart ∧ (net.state entry).rule = rule ∧
    ∃ p, net.Reaches {} ⟨entry, .unknown⟩ p ∧
      ∃ t ∈ (net.state p.state).transitions, t.isRule = true ∧ (net.state t.target).rule = rule

/-- From a start of the rule, a stop of the rule can be reached without consuming a symbol. -/
def Nullable (net : Network) (rule : Int) : Prop :=
  ∃ entry ∈ net.listed, (net.state entry).kind = .ruleStart ∧ (net.state entry).rule = rule ∧
    ∃ stop, net.Reaches {} ⟨entry, .unknown⟩ ⟨stop, .unknown⟩ ∧
      (net.state stop).isRuleStop = true ∧ (net.state stop).rule = rule

/-- No rule can come back to itself and also match nothing. -/
def Guarded (net : Network) : Prop := ∀ rule, ¬ (net.LeftRecursive rule ∧ net.Nullable rule)

/-- All invocations of a rule that can come back to itself enter it at one start. -/
def SingleEntry (net : Network) : Prop :=
  ∀ first ∈ net.listed, ∀ second ∈ net.listed,
    ∀ t ∈ (net.state first).transitions, ∀ u ∈ (net.state second).transitions,
      t.isRule = true → u.isRule = true → (net.state t.target).rule = (net.state u.target).rule →
        net.LeftRecursive (net.state t.target).rule → t.target = u.target

theorem singleEntry_of_targets
    {net : Network}
    (targets : ∀ first ∈ net.listed, ∀ second ∈ net.listed,
      ∀ t ∈ (net.state first).transitions, ∀ u ∈ (net.state second).transitions,
        t.isRule = true → u.isRule = true → (net.state t.target).rule = (net.state u.target).rule →
          t.target = u.target) : net.SingleEntry :=
  fun first firstListed second secondListed t inFirst u inSecond invokes alsoInvokes same _ =>
    targets first firstListed second secondListed t inFirst u inSecond invokes alsoInvokes same

/-- States from which nothing that consumes no symbol leads elsewhere, and none of which stops a rule. -/
def Unstopped (net : Network) (states : List StateId) : Prop :=
  ∀ id ∈ states, (net.state id).isRuleStop = false ∧
    ∀ t ∈ (net.state id).transitions, t.isEpsilon = true → t.target ∈ states

instance (net : Network) (states : List StateId) : Decidable (net.Unstopped states) :=
  inferInstanceAs (Decidable (∀ id ∈ states, (net.state id).isRuleStop = false ∧
    ∀ t ∈ (net.state id).transitions, t.isEpsilon = true → t.target ∈ states))

theorem isEpsilon_of_isRule {t : Transition} (invokes : t.isRule = true) : t.isEpsilon = true := by
  obtain ⟨target, kind⟩ := t
  cases kind <;> first | rfl | exact Bool.noConfusion invokes

theorem Unstopped.mem_of_reaches
    {net : Network} {states : List StateId} (unstopped : net.Unstopped states) {mode : SearchMode} {p q : Point}
    (member : p.state ∈ states) (reaches : net.Reaches mode p q) : q.state ∈ states := by
  refine reaches.invariant (P := fun p => p.state ∈ states) (fun here move => ?_) member
  cases move with
  | pass _ inState passes => exact (unstopped _ here).2 _ inState passes.1
  | enter _ inState invokes => exact (unstopped _ here).2 _ inState (isEpsilon_of_isRule invokes)
  | leave stops _ _ =>
      rw [(unstopped _ here).1] at stops
      exact Bool.noConfusion stops

/-- If the starts of all rules are among such states, then no rule matches nothing. -/
theorem Unstopped.guarded
    {net : Network} {states : List StateId} (unstopped : net.Unstopped states)
    (starts : ∀ id ∈ net.listed, (net.state id).kind = .ruleStart → id ∈ states) : net.Guarded := by
  rintro rule ⟨_, entry, listed, kind, _, stop, reaches, stops, _⟩
  have stays : stop ∈ states := unstopped.mem_of_reaches (starts entry listed kind) reaches
  rw [(unstopped stop stays).1] at stops
  exact Bool.noConfusion stops

end Network

end GrammarNet
