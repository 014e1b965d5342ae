import GrammarNet.Proofs.Pushdown.Frame
import GrammarNet.Proofs.Pushdown.Labels

/-!
# Paths under a rooted chain

What can come first under a chain of invocations that ends in a root, told rule by rule: within the rule of a state,
and beyond it as far out as the rules returned to can end. Where a link of the chain leads nowhere, the paths that come
so far fail.
-/

namespace GrammarNet

namespace Network

/-- From the state, the end of its rule can be reached without consuming a symbol. -/
def CanEnd (net : Network) (id : StateId) : Prop :=
  ∃ stop, net.Reaches {} ⟨id, .unknown⟩ ⟨stop, .unknown⟩ ∧ (net.state stop).isRuleStop = true

/-- The symbol can come first after returning along the links of a rooted chain. -/
def Beyond (net : Network) : List Int → Symbol → Prop
  | [], x => x = Symbol.endOfInput
  | link :: outer, x => ∃ next, net.ReturnsTo link next ∧
      ((net.First {} ⟨next, .unknown⟩ x ∧ x ≠ Symbol.epsilon) ∨ (net.CanEnd next ∧ Beyond net outer x))

/-- Returning along the links of a chain comes to one that leads nowhere. -/
def LostBeyond (net : Network) : List Int → Fault → Prop
  | [], _ => False
  | link :: outer, fault => net.followState link = .error fault ∨
      ∃ next, net.ReturnsTo link next ∧ net.CanEnd next ∧ LostBeyond net outer fault

section Rooted

variable {net : Network} {id : StateId} {links : List Int} {x : Symbol} {fault : Fault} {p r : Point}

/-! ## Points of the network -/

theorem passable_iff : net.Passable {} p ↔ (net.state p.state).isRuleStop = false := by
  constructor
  · intro passable
    refine Bool.eq_false_iff.mpr fun stops => ?_
    obtain ⟨id, stack⟩ := p
    cases stack with
    | nil => exact passable (Or.inr stops)
    | cons link outer =>
        by_cases invoked : 0 ≤ link
        · rw [passable_invoked_iff invoked, stops] at passable
          exact Bool.noConfusion passable
        · exact (passable_root_iff (Int.not_le.mp invoked)).mp passable ⟨Or.inr stops, rfl⟩
  · exact fun goesOn => supports_of_inner {} p.stack p.state goesOn

/-- What a point shows is the mark of the end, or a symbol that a transition yields and that is no mark. -/
theorem halts_or_yields_of_emits
    (labelled : net.Labelled Range.OfInput) (listed : p.state ∈ net.listed) (emits : net.Emits {} p x) :
    net.Halts {} p x ∨ ((net.state p.state).isRuleStop = false ∧ x ≠ Symbol.epsilon ∧
      ∃ t ∈ (net.state p.state).transitions, t.kind.Yields net.maxSymbol x) := by
  cases emits with
  | halt halts => exact Or.inl halts
  | consume passable member yields =>
      refine Or.inr ⟨passable_iff.mp passable, ?_, _, member, yields⟩
      rcases TransitionKind.Labelled.of_yields (labelled _ listed _ member) yields with user | ⟨r, ofInput, inside⟩
      · rintro rfl
        exact absurd user (by decide)
      · exact ofInput.ne_epsilon inside
  | hit _ _ _ blocked => exact Bool.noConfusion blocked

theorem halts_invoked_iff (invoked : CallStack.Invoked p.stack) :
    net.Halts {} p x ↔ p.stack = [] ∧ (net.state p.state).isRuleStop = true ∧ x = Symbol.epsilon := by
  obtain ⟨id, stack⟩ := p
  cases stack with
  | nil =>
      constructor
      · rintro ⟨stop | stops, mark⟩
        · exact nomatch stop
        · exact ⟨rfl, stops, mark⟩
      · rintro ⟨_, stops, mark⟩
        exact ⟨Or.inr stops, mark⟩
  | cons link outer =>
      refine iff_of_false (not_halts_invoked (CallStack.invoked_cons_iff.mp invoked).1) ?_
      rintro ⟨empty, _⟩
      exact List.cons_ne_nil _ _ empty

/-- The mark of an unknown caller comes first exactly if the rule can end. -/
theorem first_epsilon_iff
    (shape : net.WellFormed) (labelled : net.Labelled Range.OfInput) (listed : id ∈ net.listed) :
    net.First {} ⟨id, .unknown⟩ Symbol.epsilon ↔ net.CanEnd id := by
  constructor
  · rintro ⟨steps, ⟨stop, stack⟩, path, emits⟩
    have stopListed := shape.listed_of_reaches listed ⟨steps, path⟩
    have invoked := path.invoked shape listed CallStack.invoked_nil
    rcases halts_or_yields_of_emits labelled stopListed emits with halts | ⟨_, real, _⟩
    · obtain ⟨empty, stops, _⟩ := (halts_invoked_iff invoked).mp halts
      simp only at empty
      subst empty
      exact ⟨stop, ⟨steps, path⟩, stops⟩
    · exact absurd rfl real
  · rintro ⟨stop, ⟨steps, path⟩, stops⟩
    exact ⟨steps, _, path, .halt ⟨Or.inr stops, rfl⟩⟩

/-! ## Above a chain -/

/-- A state whose rule can end leads to the end of the rule under every chain. -/
theorem CanEnd.reaches
    (shape : net.WellFormed) (listed : id ∈ net.listed) (canEnd : net.CanEnd id) (base : CallStack) :
    ∃ stop, net.Reaches {} ⟨id, base⟩ ⟨stop, base⟩ ∧ (net.state stop).isRuleStop = true := by
  obtain ⟨stop, ⟨steps, path⟩, stops⟩ := canEnd
  exact ⟨stop, ⟨steps, Path.lift shape listed CallStack.invoked_nil (supports_of_inner {} base) path⟩, stops⟩

/-- What can come first within a rule can come first under every chain. -/
theorem First.append
    (shape : net.WellFormed) (labelled : net.Labelled Range.OfInput) (listed : id ∈ net.listed)
    (first : net.First {} ⟨id, .unknown⟩ x) (real : x ≠ Symbol.epsilon) (base : CallStack) :
    net.First {} ⟨id, base⟩ x := by
  obtain ⟨steps, ⟨last, stack⟩, path, emits⟩ := first
  have lastListed := shape.listed_of_reaches listed ⟨steps, path⟩
  have invoked := path.invoked shape listed CallStack.invoked_nil
  rcases halts_or_yields_of_emits labelled lastListed emits with halts | ⟨goesOn, _, t, member, yields⟩
  · exact absurd ((halts_invoked_iff invoked).mp halts).2.2 real
  · exact ⟨steps, _, Path.lift shape listed CallStack.invoked_nil (supports_of_inner {} base) path,
      .consume (passable_iff.mpr goesOn) member yields⟩

/-- A path under a rooted chain stays within the rule, as one without the chain, or returns along the first link. -/
theorem Reaches.rooted_cases
    (shape : net.WellFormed) (listed : id ∈ net.listed) (reaches : net.Reaches {} ⟨id, .rooted links⟩ r) :
    (∃ above, r.stack = above ++ CallStack.rooted links ∧ CallStack.Invoked above ∧
      net.Reaches {} ⟨id, .unknown⟩ ⟨r.state, above⟩) ∨
    ∃ link outer next, links = link :: outer ∧ net.CanEnd id ∧ net.ReturnsTo link next ∧
      net.Reaches {} ⟨next, .rooted outer⟩ r := by
  obtain ⟨steps, path⟩ := reaches
  have above : net.Path {} steps ⟨id, [] ++ CallStack.rooted links⟩ r := path
  rcases above.lower shape listed CallStack.invoked_nil with
    ⟨rest, stack, inner⟩ | ⟨stop, taken, left, stops, inner, beyond, _⟩
  · exact Or.inl ⟨rest, stack, inner.invoked shape listed CallStack.invoked_nil, steps, inner.widen⟩
  · generalize start : (⟨stop, CallStack.rooted links⟩ : Point) = q at beyond
    cases beyond with
    | here =>
        subst start
        exact Or.inl ⟨[], rfl, CallStack.invoked_nil, taken, inner.widen⟩
    | step move later =>
        cases move with
        | pass passable _ _ =>
            rw [passable_iff, ← start, stops] at passable
            exact Bool.noConfusion passable
        | enter passable _ _ =>
            rw [passable_iff, ← start, stops] at passable
            exact Bool.noConfusion passable
        | @leave _ next link outer _ nonneg returns =>
            injection start with _ stack
            cases links with
            | nil =>
                injection stack with root _
                omega
            | cons first rest =>
                injection stack with sameLink sameOuter
                subst sameLink sameOuter
                exact Or.inr ⟨first, rest, next, rfl, ⟨stop, ⟨taken, inner.widen⟩, stops⟩, returns, _, later⟩

/-- What a path shows that stays above a rooted chain comes first within the rule, or the rule ends at the root. -/
theorem first_of_above
    (shape : net.WellFormed) (labelled : net.Labelled Range.OfInput) (listed : id ∈ net.listed)
    (invoked : CallStack.Invoked links) {last : StateId} {above : CallStack} (aboveInvoked : above.Invoked)
    (inner : net.Reaches {} ⟨id, .unknown⟩ ⟨last, above⟩) (emits : net.Emits {} ⟨last, above ++ .rooted links⟩ x) :
    (net.First {} ⟨id, .unknown⟩ x ∧ x ≠ Symbol.epsilon) ∨
      (links = [] ∧ net.CanEnd id ∧ x = Symbol.endOfInput) := by
  have lastListed : last ∈ net.listed := shape.listed_of_reaches listed inner
  rcases halts_or_yields_of_emits labelled lastListed emits with halts | ⟨goesOn, real, t, member, yields⟩
  · cases above with
    | nil =>
        cases links with
        | nil =>
            obtain ⟨stop | stops, _, _, mark⟩ := halts
            · exact nomatch stop
            · exact Or.inr ⟨rfl, ⟨last, inner, stops⟩, mark⟩
        | cons link outer => exact absurd halts (not_halts_invoked (CallStack.invoked_cons_iff.mp invoked).1)
    | cons link outer => exact absurd halts (not_halts_invoked (CallStack.invoked_cons_iff.mp aboveInvoked).1)
  · exact Or.inl ⟨.of_reaches inner ⟨0, _, .here _, .consume (passable_iff.mpr goesOn) member yields⟩, real⟩

/-- A path that stays above a rooted chain fails only right on its first link. -/
theorem fails_of_above
    (shape : net.WellFormed) (listed : id ∈ net.listed) {last : StateId} {above : CallStack}
    (inner : net.Reaches {} ⟨id, .unknown⟩ ⟨last, above⟩) (fails : net.Fails ⟨last, above ++ .rooted links⟩ fault) :
    net.CanEnd id ∧ net.LostBeyond links fault := by
  obtain ⟨link, outer, stack, nonneg, stops, failed⟩ := fails
  cases above with
  | nil =>
      cases links with
      | nil =>
          injection stack with root _
          omega
      | cons first rest =>
          injection stack with same _
          subst same
          exact ⟨⟨last, inner, stops⟩, Or.inl failed⟩
  | cons innermost rest =>
      injection stack with same _
      subst same
      have invoking : net.Invoking (innermost :: rest) := invoking_of_reaches shape listed invoking_unknown inner
      exact absurd ⟨innermost, rest, rfl, nonneg, stops, failed⟩
        (not_fails_of_invoking shape (p := ⟨last, innermost :: rest⟩) invoking)

/-! ## Rule by rule -/

/-- What can come first under a rooted chain: what can within the rule, and what can beyond it if the rule can end. -/
theorem first_rooted_iff
    (shape : net.WellFormed) (labelled : net.Labelled Range.OfInput) (listed : id ∈ net.listed)
    (invoked : CallStack.Invoked links) :
    net.First {} ⟨id, .rooted links⟩ x ↔
      (net.First {} ⟨id, .unknown⟩ x ∧ x ≠ Symbol.epsilon) ∨ (net.CanEnd id ∧ net.Beyond links x) := by
  induction links generalizing id with
  | nil =>
      constructor
      · rintro ⟨steps, ⟨last, stack⟩, path, emits⟩
        rcases Reaches.rooted_cases shape listed ⟨steps, path⟩ with
          ⟨above, rfl, aboveInvoked, inner⟩ | ⟨_, _, _, absent, _⟩
        · exact (first_of_above shape labelled listed invoked aboveInvoked inner emits).imp_right And.right
        · exact nomatch absent
      · rintro (⟨first, real⟩ | ⟨canEnd, rfl⟩)
        · exact first.append shape labelled listed real _
        · obtain ⟨stop, reaches, stops⟩ := canEnd.reaches shape listed (.rooted [])
          exact .of_reaches reaches ⟨0, _, .here _, .halt ⟨Or.inr stops, by decide, rfl, rfl⟩⟩
  | cons link outer inductionHypothesis =>
      obtain ⟨nonneg, outerInvoked⟩ := CallStack.invoked_cons_iff.mp invoked
      constructor
      · rintro ⟨steps, ⟨last, stack⟩, path, emits⟩
        rcases Reaches.rooted_cases shape listed ⟨steps, path⟩ with
          ⟨above, rfl, aboveInvoked, inner⟩ | ⟨_, _, next, same, canEnd, returns, ⟨more, later⟩⟩
        · rcases first_of_above shape labelled listed invoked aboveInvoked inner emits with within | ⟨empty, _⟩
          · exact Or.inl within
          · exact nomatch empty
        · injection same with sameLink sameOuter
          subst sameLink sameOuter
          exact Or.inr ⟨canEnd, next, returns,
            (inductionHypothesis (shape.returnsTo returns).1 outerInvoked).mp ⟨more, _, later, emits⟩⟩
      · rintro (⟨first, real⟩ | ⟨canEnd, next, returns, beyond⟩)
        · exact first.append shape labelled listed real _
        · obtain ⟨stop, reaches, stops⟩ := canEnd.reaches shape listed (.rooted (link :: outer))
          exact .of_reaches (reaches.append (.leave stops nonneg returns))
            ((inductionHypothesis (shape.returnsTo returns).1 outerInvoked).mpr beyond)

/-- Under a rooted chain, a path fails where returning along the chain comes to a link that leads nowhere, and nowhere
else. -/
theorem fails_rooted_iff
    (shape : net.WellFormed) (listed : id ∈ net.listed) (invoked : CallStack.Invoked links) :
    (∃ p, net.Reaches {} ⟨id, .rooted links⟩ p ∧ net.Fails p fault) ↔ net.CanEnd id ∧ net.LostBeyond links fault := by
  induction links generalizing id with
  | nil =>
      refine iff_of_false ?_ fun lost => lost.2
      rintro ⟨⟨last, stack⟩, reaches, fails⟩
      rcases Reaches.rooted_cases shape listed reaches with ⟨above, rfl, _, inner⟩ | ⟨_, _, _, absent, _⟩
      · exact (fails_of_above shape listed inner fails).2
      · exact nomatch absent
  | cons link outer inductionHypothesis =>
      obtain ⟨nonneg, outerInvoked⟩ := CallStack.invoked_cons_iff.mp invoked
      constructor
      · rintro ⟨⟨last, stack⟩, reaches, fails⟩
        rcases Reaches.rooted_cases shape listed reaches with
          ⟨above, rfl, _, inner⟩ | ⟨_, _, next, same, canEnd, returns, later⟩
        · exact fails_of_above shape listed inner fails
        · injection same with sameLink sameOuter
          subst sameLink sameOuter
          exact ⟨canEnd, Or.inr ⟨next, returns,
            (inductionHypothesis (shape.returnsTo returns).1 outerInvoked).mp ⟨_, later, fails⟩⟩⟩
      · rintro ⟨canEnd, failed | ⟨next, returns, lost⟩⟩
        · obtain ⟨stop, reaches, stops⟩ := canEnd.reaches shape listed (.rooted (link :: outer))
          exact ⟨_, reaches, link, CallStack.rooted outer, rfl, nonneg, stops, failed⟩
        · obtain ⟨stop, reaches, stops⟩ := canEnd.reaches shape listed (.rooted (link :: outer))
          obtain ⟨p, later, fails⟩ :=
            (inductionHypothesis (shape.returnsTo returns).1 outerInvoked).mpr lost
          exact ⟨p, (reaches.append (.leave stops nonneg returns)).trans later, fails⟩

/-! ## One link -/

theorem returnsTo_unique
    (shape : net.WellFormed) {link : Int} {next other : StateId} (returns : net.ReturnsTo link next)
    (also : net.ReturnsTo link other) : next = other := by
  have followed := shape.followState_eq_ok_iff.mpr returns
  rw [shape.followState_eq_ok_iff.mpr also] at followed
  exact (Option.some.inj (Except.ok.inj followed)).symm

theorem beyond_cons_iff
    (shape : net.WellFormed) {link : Int} {outer : List Int} {next : StateId} (returns : net.ReturnsTo link next) :
    net.Beyond (link :: outer) x ↔
      (net.First {} ⟨next, .unknown⟩ x ∧ x ≠ Symbol.epsilon) ∨ (net.CanEnd next ∧ net.Beyond outer x) := by
  constructor
  · rintro ⟨other, also, beyond⟩
    obtain rfl := returnsTo_unique shape returns also
    exact beyond
  · exact fun beyond => ⟨next, returns, beyond⟩

theorem lostBeyond_cons_iff
    (shape : net.WellFormed) {link : Int} {outer : List Int} {next : StateId} (returns : net.ReturnsTo link next) :
    net.LostBeyond (link :: outer) fault ↔ net.CanEnd next ∧ net.LostBeyond outer fault := by
  constructor
  · rintro (failed | ⟨other, also, lost⟩)
    · rw [shape.followState_eq_ok_iff.mpr returns] at failed
      contradiction
    · obtain rfl := returnsTo_unique shape returns also
      exact lost
  · exact fun lost => Or.inr ⟨next, returns, lost⟩

/-- A chain is followed to one link that leads nowhere at most. -/
theorem lostBeyond_unique
    (shape : net.WellFormed) {other : Fault} (lost : net.LostBeyond links fault) (also : net.LostBeyond links other) :
    fault = other := by
  induction links with
  | nil => exact lost.elim
  | cons link outer inductionHypothesis =>
      rcases lost with failed | ⟨next, returns, _, lost⟩
      · rcases also with alsoFailed | ⟨next, returns, _⟩
        · rw [failed] at alsoFailed
          exact Except.error.inj alsoFailed
        · rw [shape.followState_eq_ok_iff.mpr returns] at failed
          contradiction
      · exact inductionHypothesis lost ((lostBeyond_cons_iff shape returns).mp also).2

end Rooted

end Network

end GrammarNet
