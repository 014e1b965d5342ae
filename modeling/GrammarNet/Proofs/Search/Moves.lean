import GrammarNet.Proofs.Pushdown.Frame

/-!
# Tasks as moves

What a search does at a configuration, told in terms of the plain moves. The tasks to which a configuration leads are
listed once, by `Leads`; each of them is a move or a symbol, and each move and each symbol has its task, unless the
move enters a rule that the path has entered before.
-/

namespace GrammarNet

namespace Search

variable {net : Network} {mode : SearchMode} {id : StateId} {config : Config} {t : Transition} {task : Task}

/-! ## Tasks -/

/-- A task to which a transition leads. -/
inductive Followed (net : Network) (mode : SearchMode) (id : StateId) (config : Config) (t : Transition) :
    Task → Prop
  | passed (passes : mode.Passes t.kind) :
      Followed net mode id config t (.visit { config with state := some t.target })
  | entered (invokes : t.isRule = true) (fresh : (net.state t.target).rule ∉ config.entered) :
      Followed net mode id config t
        (.visit ⟨some t.target, config.stack.push (net.state id).number,
          (net.state t.target).rule :: config.entered⟩)
  | hit (predicate : t.kind.isPredicate = true) (blocked : mode.throughPredicates = false) :
      Followed net mode id config t (.report .invalid)
  | consumed (consumes : t.kind.isEpsilon = false) : Followed net mode id config t (.consume t.kind)

theorem mem_follow_iff :
    task ∈ follow net mode (net.state id) config t ↔ Followed net mode id config t task := by
  obtain ⟨target, kind⟩ := t
  constructor
  · intro member
    cases kind with
    | rule index precedence next =>
        simp only [follow] at member
        split at member
        · simp at member
        · rename_i fresh
          rw [List.mem_singleton.mp member]
          exact .entered rfl fresh
    | abstractPredicate | predicate | precedence =>
        simp only [follow] at member
        split at member
        · rename_i through
          rw [List.mem_singleton.mp member]
          exact .passed ⟨rfl, rfl, fun _ => through⟩
        · rename_i blocked
          rw [List.mem_singleton.mp member]
          exact .hit rfl (Bool.eq_false_iff.mpr blocked)
    | epsilon | action =>
        rw [List.mem_singleton.mp member]
        exact .passed ⟨rfl, rfl, nofun⟩
    | plain | atom | range | set | notSet | wildcard =>
        rw [List.mem_singleton.mp member]
        exact .consumed rfl
  · intro followed
    cases followed with
    | passed passes =>
        obtain ⟨free, noRule, through⟩ := passes
        cases kind <;> simp_all [follow, TransitionKind.isEpsilon, TransitionKind.isRule, TransitionKind.isPredicate]
    | entered invokes fresh =>
        cases kind <;> simp_all [follow, Transition.isRule, TransitionKind.isRule]
    | hit predicate blocked =>
        cases kind <;> simp_all [follow, TransitionKind.isPredicate]
    | consumed consumes =>
        cases kind <;> simp_all [follow, TransitionKind.isEpsilon]

/-- A task to which a configuration leads. -/
inductive Leads (net : Network) (mode : SearchMode) (id : StateId) (config : Config) : Task → Prop
  | halted {mark : Symbol} (halts : net.Halts mode ⟨id, config.stack⟩ mark) : Leads net mode id config (.report mark)
  | returned {link : Int} {outer : CallStack} {next : Option StateId} (stack : config.stack = link :: outer)
      (invoked : 0 ≤ link) (stops : (net.state id).isRuleStop = true) (followed : net.followState link = .ok next) :
      Leads net mode id config (.visit ⟨next, outer, config.entered.erase (net.state id).rule⟩)
  | followed {t : Transition} {task : Task} (passable : net.Passable mode ⟨id, config.stack⟩)
      (member : t ∈ (net.state id).transitions) (followed : Followed net mode id config t task) :
      Leads net mode id config task

theorem expand_of_halts {mark : Symbol} (halts : net.Halts mode ⟨id, config.stack⟩ mark) :
    expand net mode id config = .ok [.report mark] := by
  obtain ⟨state, stack, entered⟩ := config
  cases stack with
  | nil =>
      obtain ⟨leaves, rfl⟩ := halts
      exact if_pos leaves
  | cons link outer =>
      obtain ⟨leaves, negative, marked, rfl⟩ := halts
      exact if_pos ⟨leaves, negative, marked⟩

theorem expand_of_returns
    {link : Int} {outer : CallStack} (stack : config.stack = link :: outer) (invoked : 0 ≤ link)
    (stops : (net.state id).isRuleStop = true) :
    expand net mode id config =
      (net.followState link).map fun next => [.visit ⟨next, outer, config.entered.erase (net.state id).rule⟩] := by
  have notRoot : ¬ link < 0 := Int.not_lt.mpr invoked
  simp only [expand, stack, stops, invoked, notRoot, false_and, and_false, true_and, if_false, if_true]

theorem expand_of_passable (passable : net.Passable mode ⟨id, config.stack⟩) :
    expand net mode id config = .ok ((net.state id).transitions.flatMap (follow net mode (net.state id) config)) := by
  obtain ⟨state, stack, entered⟩ := config
  cases stack with
  | nil => exact if_neg passable
  | cons link outer =>
      by_cases invoked : 0 ≤ link
      · have goesOn := (Network.passable_invoked_iff invoked).mp passable
        simp [expand, goesOn, Int.not_lt.mpr invoked]
      · have negative : link < 0 := Int.not_le.mp invoked
        have unmarked := (Network.passable_root_iff negative).mp passable
        have outermost : ¬ ((net.state id).isRuleStop = true ∧ 0 ≤ link) := fun ends => invoked ends.2
        have unended : ¬ ((mode.stop = some id ∨ (net.state id).isRuleStop = true) ∧ link < 0 ∧ mode.marksEnd = true) :=
          fun ends => unmarked ⟨ends.1, ends.2.2⟩
        simp only [expand, outermost, unended, if_false]

/-- At every point paths end, return from a rule that was invoked, or go on. -/
theorem halts_or_returns_or_passable (net : Network) (mode : SearchMode) (p : Point) :
    (∃ mark, net.Halts mode p mark) ∨
      (∃ link outer, p.stack = link :: outer ∧ 0 ≤ link ∧ (net.state p.state).isRuleStop = true) ∨
      net.Passable mode p := by
  obtain ⟨id, stack⟩ := p
  cases stack with
  | nil =>
      by_cases leaves : net.Leaves mode id
      · exact Or.inl ⟨_, leaves, rfl⟩
      · exact Or.inr (Or.inr leaves)
  | cons link outer =>
      by_cases invoked : 0 ≤ link
      · cases stops : (net.state id).isRuleStop with
        | true => exact Or.inr (Or.inl ⟨link, outer, rfl, invoked, rfl⟩)
        | false => exact Or.inr (Or.inr ((Network.passable_invoked_iff invoked).mpr stops))
      · by_cases ends : net.Leaves mode id ∧ mode.marksEnd = true
        · exact Or.inl ⟨_, ends.1, Int.not_le.mp invoked, ends.2, rfl⟩
        · exact Or.inr (Or.inr ((Network.passable_root_iff (Int.not_le.mp invoked)).mpr ends))

theorem not_passable_of_halts {p : Point} {mark : Symbol} (halts : net.Halts mode p mark) :
    ¬ net.Passable mode p := by
  obtain ⟨id, stack⟩ := p
  cases stack with
  | nil => exact fun passable => passable halts.1
  | cons link outer =>
      obtain ⟨leaves, negative, marked, _⟩ := halts
      rw [Network.passable_root_iff negative]
      exact fun goesOn => goesOn ⟨leaves, marked⟩

theorem halts_unique
    {p : Point} {mark other : Symbol} (halts : net.Halts mode p mark) (also : net.Halts mode p other) :
    mark = other := by
  obtain ⟨id, stack⟩ := p
  cases stack with
  | nil => exact halts.2.trans also.2.symm
  | cons link outer => exact halts.2.2.2.trans also.2.2.2.symm

/-- The tasks that a configuration leads to are exactly those that its expansion lists. -/
theorem mem_expand_iff {tasks : List Task} (expanded : expand net mode id config = .ok tasks) :
    task ∈ tasks ↔ Leads net mode id config task := by
  rcases halts_or_returns_or_passable net mode ⟨id, config.stack⟩ with
    ⟨mark, halts⟩ | ⟨link, outer, stack, invoked, stops⟩ | passable
  · rw [expand_of_halts halts] at expanded
    obtain rfl := Except.ok.inj expanded
    rw [List.mem_singleton]
    constructor
    · rintro rfl
      exact .halted halts
    · intro leads
      cases leads with
      | halted also => rw [halts_unique halts also]
      | returned stack invoked _ _ =>
          rw [stack] at halts
          exact absurd halts (Network.not_halts_invoked invoked)
      | followed passable _ _ => exact absurd passable (not_passable_of_halts halts)
  · simp only at stack stops
    rw [expand_of_returns stack invoked stops] at expanded
    cases target : net.followState link with
    | error fault =>
        rw [target] at expanded
        contradiction
    | ok next =>
        rw [target] at expanded
        obtain rfl := Except.ok.inj expanded
        rw [List.mem_singleton]
        constructor
        · rintro rfl
          exact .returned stack invoked stops target
        · intro leads
          cases leads with
          | halted halts =>
              rw [stack] at halts
              exact absurd halts (Network.not_halts_invoked invoked)
          | returned again _ _ followed =>
              rw [stack] at again
              injection again with sameLink sameOuter
              subst sameLink sameOuter
              rw [target] at followed
              injection followed with same
              rw [same]
          | followed passable _ _ =>
              rw [stack] at passable
              exact absurd passable (Network.not_passable_invoked invoked stops)
  · rw [expand_of_passable passable] at expanded
    obtain rfl := Except.ok.inj expanded
    rw [List.mem_flatMap]
    constructor
    · rintro ⟨t, member, inFollow⟩
      exact .followed passable member (mem_follow_iff.mp inFollow)
    · intro leads
      cases leads with
      | halted halts => exact absurd passable (not_passable_of_halts halts)
      | returned stack invoked stops _ =>
          rw [stack] at passable
          exact absurd passable (Network.not_passable_invoked invoked stops)
      | followed _ member followed => exact ⟨_, member, mem_follow_iff.mpr followed⟩

/-- The expansion of a configuration fails exactly where the path fails. -/
theorem expand_error_iff {fault : Fault} :
    expand net mode id config = .error fault ↔ net.Fails ⟨id, config.stack⟩ fault := by
  constructor
  · intro refused
    rcases halts_or_returns_or_passable net mode ⟨id, config.stack⟩ with
      ⟨mark, halts⟩ | ⟨link, outer, stack, invoked, stops⟩ | passable
    · rw [expand_of_halts halts] at refused
      contradiction
    · simp only at stack stops
      rw [expand_of_returns stack invoked stops] at refused
      cases target : net.followState link with
      | error cause =>
          rw [target] at refused
          injection refused with same
          subst same
          exact ⟨link, outer, stack, invoked, stops, target⟩
      | ok next =>
          rw [target] at refused
          contradiction
    · rw [expand_of_passable passable] at refused
      contradiction
  · rintro ⟨link, outer, stack, invoked, stops, failed⟩
    rw [expand_of_returns stack invoked stops, failed]
    rfl

/-! ## Moves and symbols -/

section Leads

variable {next : Config} {x : Symbol} {q : Point}

/-- A configuration that is visited next is one move away. -/
theorem Leads.move (shape : net.WellFormed) (leads : Leads net mode id config (.visit next)) :
    ∃ target, next.state = some target ∧ net.Move mode ⟨id, config.stack⟩ ⟨target, next.stack⟩ := by
  cases leads with
  | @returned link outer follow stack invoked stops followed =>
      cases follow with
      | none => exact absurd followed shape.followState_ne_ok_none
      | some target =>
          rw [stack]
          exact ⟨target, rfl, .leave stops invoked (shape.followState_eq_ok_iff.mp followed)⟩
  | followed passable member followed =>
      cases followed with
      | passed passes => exact ⟨_, rfl, .pass passable member passes⟩
      | entered invokes _ => exact ⟨_, rfl, .enter passable member invokes⟩

/-- No rule is entered twice on a path. -/
theorem Leads.nodup_entered (leads : Leads net mode id config (.visit next)) (nodup : config.entered.Nodup) :
    next.entered.Nodup := by
  cases leads with
  | returned _ _ _ _ => exact nodup.erase _
  | followed _ _ followed =>
      cases followed with
      | passed _ => exact nodup
      | entered _ fresh => exact List.nodup_cons.mpr ⟨fresh, nodup⟩

theorem Leads.emits (leads : Leads net mode id config (.report x)) : net.Emits mode ⟨id, config.stack⟩ x := by
  cases leads with
  | halted halts => exact .halt halts
  | followed passable member followed =>
      cases followed with
      | hit predicate blocked => exact .hit passable member predicate blocked

theorem Leads.transition {kind : TransitionKind} (leads : Leads net mode id config (.consume kind)) :
    net.Passable mode ⟨id, config.stack⟩ ∧ ∃ t ∈ (net.state id).transitions, t.kind = kind := by
  cases leads with
  | followed passable member followed =>
      cases followed with
      | consumed _ => exact ⟨passable, _, member, rfl⟩

theorem isEpsilon_of_yields {kind : TransitionKind} {greatest : Symbol} (yields : kind.Yields greatest x) :
    kind.isEpsilon = false := by
  cases kind <;> first | rfl | exact yields.elim

/-- Every move has its task, unless it enters a rule that the path has entered before. -/
theorem leads_of_move (shape : net.WellFormed) (move : net.Move mode ⟨id, config.stack⟩ q) :
    (∃ next, Leads net mode id config (.visit next) ∧ next.state = some q.state ∧ next.stack = q.stack) ∨
      ∃ t ∈ (net.state id).transitions, t.isRule = true ∧ (net.state t.target).rule ∈ config.entered ∧
        q = ⟨t.target, config.stack.push (net.state id).number⟩ := by
  generalize start : (⟨id, config.stack⟩ : Point) = p at move
  cases move with
  | pass passable member passes =>
      subst start
      exact Or.inl ⟨_, .followed passable member (.passed passes), rfl, rfl⟩
  | @enter _ t passable member invokes =>
      subst start
      by_cases entered : (net.state t.target).rule ∈ config.entered
      · exact Or.inr ⟨t, member, invokes, entered, rfl⟩
      · exact Or.inl ⟨_, .followed passable member (.entered invokes entered), rfl, rfl⟩
  | leave stops invoked returns =>
      injection start with sameState stack
      subst sameState
      exact Or.inl ⟨_, .returned stack invoked stops (shape.followState_eq_ok_iff.mpr returns), rfl, rfl⟩

/-- Every symbol that a point shows has its task. -/
theorem leads_of_emits (emits : net.Emits mode ⟨id, config.stack⟩ x) :
    Leads net mode id config (.report x) ∨
      ∃ kind, Leads net mode id config (.consume kind) ∧ kind.Yields net.maxSymbol x := by
  cases emits with
  | halt halts => exact Or.inl (.halted halts)
  | consume passable member yields =>
      exact Or.inr ⟨_, .followed passable member (.consumed (isEpsilon_of_yields yields)), yields⟩
  | hit passable member predicate blocked => exact Or.inl (.followed passable member (.hit predicate blocked))

end Leads

end Search

end GrammarNet
