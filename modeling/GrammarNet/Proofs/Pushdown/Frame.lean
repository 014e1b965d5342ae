import GrammarNet.Proofs.Pushdown.WellFormed

/-!
# Paths above a chain of callers

A path that does not return beyond the chain under which it began does not depend on that chain, as long as the chain
lets paths go on. `lower` cuts a path off where it first returns into the chain, `lift` puts a path on top of another
chain.
-/

namespace GrammarNet

/-- The mode in which a rule is looked at from within: nothing is known about its callers, and nothing but the end of
the rule stops a path. -/
def SearchMode.inner (mode : SearchMode) : SearchMode := { throughPredicates := mode.throughPredicates }

/-- All links of the chain are invocations. -/
def CallStack.Invoked (stack : CallStack) : Prop := ∀ link ∈ stack, 0 ≤ link

namespace CallStack

variable {link : Int} {outer : CallStack}

theorem invoked_nil : CallStack.Invoked [] := fun _ member => nomatch member

theorem invoked_cons_iff : CallStack.Invoked (link :: outer) ↔ 0 ≤ link ∧ CallStack.Invoked outer :=
  List.forall_mem_cons

/-- The invocations of a chain up to its first root link are invocations. -/
theorem invoked_links (stack : CallStack) : CallStack.Invoked stack.links := fun link member =>
  of_decide_eq_true (List.all_eq_true.mp List.all_takeWhile link member)

end CallStack

namespace Network

/-- Under the chain, paths go on from every state that does not stop a rule. -/
def Supports (net : Network) (mode : SearchMode) (base : CallStack) : Prop :=
  ∀ id, (net.state id).isRuleStop = false → net.Passable mode ⟨id, base⟩

section Frame

variable {net : Network} {mode : SearchMode} {id : StateId} {above base : CallStack} {p q r : Point} {steps : Nat}

theorem supports_of_invoked {link : Int} {outer : CallStack} (invoked : 0 ≤ link) :
    net.Supports mode (link :: outer) :=
  fun _ goesOn => (passable_invoked_iff invoked).mpr goesOn

/-- With nothing to stop at but the ends of rules, every chain lets paths go on. -/
theorem supports_of_inner (mode : SearchMode) (base : CallStack) : net.Supports mode.inner base := by
  intro id goesOn
  have stays : ¬ net.Leaves mode.inner id := by
    rintro (stop | stops)
    · exact nomatch stop
    · simp [goesOn] at stops
  cases base with
  | nil => exact stays
  | cons link outer =>
      by_cases invoked : 0 ≤ link
      · exact (passable_invoked_iff invoked).mpr goesOn
      · exact (passable_root_iff (Int.not_le.mp invoked)).mpr fun ends => stays ends.1

theorem not_passable_of_ruleStop
    (stops : (net.state id).isRuleStop = true) (invoked : above.Invoked) :
    ¬ net.Passable mode ⟨id, above⟩ := by
  cases above with
  | nil => exact fun passable => passable (Or.inr stops)
  | cons link outer => exact not_passable_invoked (CallStack.invoked_cons_iff.mp invoked).1 stops

theorem passable_append
    (supports : net.Supports mode base) (invoked : above.Invoked) (goesOn : (net.state id).isRuleStop = false) :
    net.Passable mode ⟨id, above ++ base⟩ := by
  cases above with
  | nil => exact supports id goesOn
  | cons link outer => exact (passable_invoked_iff (CallStack.invoked_cons_iff.mp invoked).1).mpr goesOn

/-! ## Moves -/

theorem invoked_of_move
    (shape : net.WellFormed) (listed : p.state ∈ net.listed) (invoked : p.stack.Invoked) (move : net.Move mode p q) :
    q.stack.Invoked := by
  cases move with
  | pass => exact invoked
  | enter => exact CallStack.invoked_cons_iff.mpr ⟨shape.nonneg_number listed, invoked⟩
  | leave => exact (CallStack.invoked_cons_iff.mp invoked).2

/-- A move above a chain is one without the chain, unless a rule stops right on the chain. -/
theorem lower_move
    (invoked : above.Invoked) (move : net.Move mode ⟨id, above ++ base⟩ q) :
    (∃ rest, q.stack = rest ++ base ∧ net.Move mode.inner ⟨id, above⟩ ⟨q.state, rest⟩) ∨
      (above = [] ∧ (net.state id).isRuleStop = true) := by
  cases stops : (net.state id).isRuleStop with
  | false =>
      have inner : net.Passable mode.inner ⟨id, above⟩ := by
        have passable := passable_append (supports_of_inner mode []) invoked stops
        rwa [List.append_nil] at passable
      generalize start : (⟨id, above ++ base⟩ : Point) = p at move
      cases move with
      | pass _ member passes =>
          subst start
          exact Or.inl ⟨above, rfl, .pass (p := ⟨id, above⟩) inner member passes⟩
      | enter _ member invokes =>
          subst start
          exact Or.inl ⟨_, rfl, .enter (p := ⟨id, above⟩) inner member invokes⟩
      | leave ends _ _ =>
          injection start with same
          subst same
          rw [stops] at ends
          exact Bool.noConfusion ends
  | true =>
      cases above with
      | nil => exact Or.inr ⟨rfl, rfl⟩
      | cons link outer =>
          have nonneg := (CallStack.invoked_cons_iff.mp invoked).1
          have stuck : ¬ net.Passable mode ⟨id, link :: outer ++ base⟩ := not_passable_invoked nonneg stops
          generalize start : (⟨id, link :: outer ++ base⟩ : Point) = p at move
          cases move with
          | pass passable _ _ => exact absurd (start ▸ passable) stuck
          | enter passable _ _ => exact absurd (start ▸ passable) stuck
          | leave ends _ returns =>
              injection start with sameState sameStack
              injection sameStack with sameLink sameOuter
              subst sameState sameLink sameOuter
              exact Or.inl ⟨outer, rfl, .leave ends nonneg returns⟩

theorem lift_move
    (supports : net.Supports mode base) (invoked : p.stack.Invoked) (move : net.Move mode.inner p q) :
    net.Move mode ⟨p.state, p.stack ++ base⟩ ⟨q.state, q.stack ++ base⟩ := by
  have goesOn : net.Passable mode.inner p → net.Passable mode ⟨p.state, p.stack ++ base⟩ := fun passable =>
    passable_append supports invoked (Bool.eq_false_iff.mpr fun stops =>
      not_passable_of_ruleStop stops invoked passable)
  cases move with
  | pass passable member passes => exact .pass (p := ⟨p.state, p.stack ++ base⟩) (goesOn passable) member passes
  | enter passable member invokes => exact .enter (p := ⟨p.state, p.stack ++ base⟩) (goesOn passable) member invokes
  | leave stops nonneg returns => exact .leave stops nonneg returns

/-- What is found without looking past predicates is also found with looking past them. -/
theorem widen_move (move : net.Move mode.inner p q) : net.Move {} p q := by
  cases move with
  | pass passable member passes =>
      refine .pass ?_ member ⟨passes.1, passes.2.1, fun _ => rfl⟩
      exact passable
  | enter passable member invokes => exact .enter passable member invokes
  | leave stops nonneg returns => exact .leave stops nonneg returns

/-! ## Paths -/

theorem Path.invoked
    (shape : net.WellFormed) (listed : p.state ∈ net.listed) (invoked : p.stack.Invoked)
    (path : net.Path mode steps p q) : q.stack.Invoked := by
  induction path with
  | here p => exact invoked
  | step move _ inductionHypothesis =>
      exact inductionHypothesis (shape.inside_of_move listed move).1 (invoked_of_move shape listed invoked move)

theorem Path.widen (path : net.Path mode.inner steps p q) : net.Path {} steps p q := by
  induction path with
  | here p => exact .here p
  | step move _ inductionHypothesis => exact .step (widen_move move) inductionHypothesis

/-- A path above a chain stays above it, or it first comes to the stop of a rule right on the chain. -/
theorem Path.lower
    (shape : net.WellFormed) (listed : id ∈ net.listed) (invoked : above.Invoked)
    (path : net.Path mode steps ⟨id, above ++ base⟩ r) :
    (∃ rest, r.stack = rest ++ base ∧ net.Path mode.inner steps ⟨id, above⟩ ⟨r.state, rest⟩) ∨
      ∃ stop taken left, (net.state stop).isRuleStop = true ∧ net.Path mode.inner taken ⟨id, above⟩ ⟨stop, []⟩ ∧
        net.Path mode left ⟨stop, base⟩ r ∧ taken + left = steps := by
  generalize start : (⟨id, above ++ base⟩ : Point) = p at path
  induction path generalizing id above with
  | here p =>
      subst start
      exact Or.inl ⟨above, rfl, .here _⟩
  | @step later p q r move rest inductionHypothesis =>
      subst start
      rcases lower_move invoked move with ⟨next, stack, inner⟩ | ⟨bare, stops⟩
      · have nextListed : q.state ∈ net.listed := (shape.inside_of_move listed move).1
        have nextInvoked : CallStack.Invoked next := invoked_of_move shape listed invoked inner
        rcases inductionHypothesis nextListed nextInvoked (by rw [← stack]) with
          ⟨last, lastStack, path⟩ | ⟨stop, taken, left, stops, path, beyond, sum⟩
        · exact Or.inl ⟨last, lastStack, .step inner path⟩
        · exact Or.inr ⟨stop, taken + 1, left, stops, .step inner path, beyond, by omega⟩
      · subst bare
        exact Or.inr ⟨id, 0, later + 1, stops, .here _, .step move rest, by omega⟩

/-- A path on which nothing is known about the callers exists above every chain that lets paths go on. -/
theorem Path.lift
    (shape : net.WellFormed) (listed : p.state ∈ net.listed) (invoked : p.stack.Invoked)
    (supports : net.Supports mode base) (path : net.Path mode.inner steps p q) :
    net.Path mode steps ⟨p.state, p.stack ++ base⟩ ⟨q.state, q.stack ++ base⟩ := by
  induction path with
  | here p => exact .here _
  | step move _ inductionHypothesis =>
      exact .step (lift_move supports invoked move)
        (inductionHypothesis (shape.inside_of_move listed move).1 (invoked_of_move shape listed invoked move))

end Frame

end Network

end GrammarNet
