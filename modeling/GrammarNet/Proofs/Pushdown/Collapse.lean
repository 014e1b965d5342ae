import GrammarNet.Proofs.Pushdown.Rooted

/-!
# Callers collapsed to a root

Where the stop of a rule leads to every place that an invocation of the rule returns to, nothing needs to be known about
the callers: a path that returns along a chain of them has its shadow under the root alone, which leaves the rule along
the transitions of its stop. The shadow shows what the path shows, or it comes to a predicate first.
-/

namespace GrammarNet

/-- The mode in which the alternatives of a decision are looked at: predicates stop a path, the end of the outermost
rule does not. -/
def SearchMode.deciding : SearchMode := { throughPredicates := false, marksEnd := false }

namespace Network

/-- The links are those of callers, each within the next: the first one invokes the rule, and each further one invokes
the rule of the state in the slot of the one before it. -/
inductive CallChain (net : Network) : Int → List Int → Prop
  | nil {rule : Int} : CallChain net rule []
  | cons {rule link : Int} {outer : List Int} {invoker : StateId} {t : Transition}
      (found : net.slot? link = some invoker) (member : t ∈ (net.state invoker).transitions) (invokes : t.isRule = true)
      (calls : (net.state t.target).rule = rule) (outward : CallChain net (net.state invoker).rule outer) :
      CallChain net rule (link :: outer)

/-- The stop of every rule leads to wherever an invocation of the rule returns to. -/
def LeadsBack (net : Network) : Prop :=
  ∀ stop ∈ net.listed, (net.state stop).isRuleStop = true →
    ∀ invoker ∈ net.listed, ∀ t ∈ (net.state invoker).transitions, t.isRule = true →
      (net.state t.target).rule = (net.state stop).rule → ∀ next ∈ t.kind.follow?,
        ∃ outermost, ⟨next, .epsilon outermost⟩ ∈ (net.state stop).transitions

/-- The second point is the first one with all callers of the outermost rule forgotten, where the chain of these is
consistent with the rule. -/
inductive Shadow (net : Network) : Point → Point → Prop
  | intro {id : StateId} {above : CallStack} {links : List Int} {rule : Int} (inside : WellFormed.Inside net id)
      (invoked : above.Invoked) (grounded : WellFormed.Grounded net rule id above) (chain : net.CallChain rule links) :
      Shadow net ⟨id, above ++ .rooted links⟩ ⟨id, above ++ .root⟩

section Shadow

variable {net : Network} {p q r : Point} {x : Symbol} {id : StateId} {above : CallStack}

theorem passable_deciding (invoked : above.Invoked) (goesOn : (net.state id).isRuleStop = false) :
    net.Passable .deciding ⟨id, above ++ .root⟩ := by
  apply passable_append _ invoked goesOn
  intro other _
  apply (passable_root_iff (by decide)).mpr
  exact fun ends => Bool.noConfusion ends.2

/-- What a point shows, its shadow shows, unless it is the end of the input. -/
theorem Shadow.emits (shadow : net.Shadow p q) (emits : net.Emits {} p x) (real : x ≠ Symbol.endOfInput) :
    net.Emits .deciding q x := by
  obtain @⟨id, above, links, rule, inside, invoked, grounded, chain⟩ := shadow
  cases emits with
  | halt halts =>
      -- Under a chain that ends in a root, a path ends with no other mark than that of the input.
      cases whole : above ++ CallStack.rooted links with
      | nil => simp [CallStack.rooted, CallStack.root] at whole
      | cons link outer =>
          rw [whole] at halts
          exact absurd halts.2.2.2 real
  | consume passable member yields =>
      have goesOn := passable_iff.mp passable
      exact .consume (passable_deciding invoked goesOn) member yields
  | hit _ _ _ blocked => exact Bool.noConfusion blocked

/-- A move that passes no predicate is one with or without looking past them. -/
theorem narrow_move
    (invoked : above.Invoked) (move : net.Move {} ⟨id, above⟩ r)
    (unhit : ¬ net.Emits .deciding ⟨id, above ++ .root⟩ Symbol.invalid) :
    net.Move SearchMode.deciding.inner ⟨id, above⟩ r := by
  generalize start : (⟨id, above⟩ : Point) = p at move
  cases move with
  | @pass _ t passable member passes =>
      subst start
      have shadowed : net.Passable .deciding ⟨id, above ++ .root⟩ :=
        passable_deciding invoked (passable_iff.mp passable)
      refine .pass passable member ⟨passes.1, passes.2.1, fun predicate => ?_⟩
      exact absurd (.hit shadowed member predicate rfl) unhit
  | enter passable member invokes =>
      subst start
      exact .enter passable member invokes
  | leave stops nonneg returns =>
      exact .leave stops nonneg returns

/-- A path that returns along the first link of a chain of callers leaves the rule along its stop under the root. -/
theorem shadow_of_return
    {links : List Int} {rule : Int} (shape : net.WellFormed) (back : net.LeadsBack) (listed : id ∈ net.listed)
    (sameRule : (net.state id).rule = rule) (stops : (net.state id).isRuleStop = true) (chain : net.CallChain rule links)
    (move : net.Move {} ⟨id, .rooted links⟩ r) :
    ∃ s, net.Move .deciding ⟨id, .root⟩ s ∧ net.Shadow r s := by
  generalize start : (⟨id, .rooted links⟩ : Point) = p at move
  cases move with
  | pass passable _ _ | enter passable _ _ =>
      rw [passable_iff, ← start, stops] at passable
      exact Bool.noConfusion passable
  | @leave _ next link outer _ nonneg returns =>
      injection start with _ stack
      cases chain with
      | nil =>
          injection stack with root _
          omega
      | @cons _ first rest invoker t found member invokes calls outward =>
          injection stack with sameLink sameOuter
          subst sameLink sameOuter
          obtain ⟨nextListed, kind, other, otherFound, nextRule⟩ := shape.returnsTo returns
          obtain rfl := Option.some.inj (found.symm.trans otherFound)
          obtain ⟨source, sourceFound, u, alsoMember, follow⟩ := returns
          obtain rfl := Option.some.inj (found.symm.trans sourceFound)
          have invokerListed := mem_listed_of_slot? found
          have alone := (shape.invocations _ invokerListed t member invokes).1
          rw [alone, List.mem_singleton] at alsoMember
          subst alsoMember
          obtain ⟨outermost, edge⟩ :=
            back id listed stops _ invokerListed u member invokes (calls.trans sameRule.symm) next follow
          have passable : net.Passable .deciding ⟨id, .root⟩ :=
            (passable_root_iff (by decide)).mpr fun ends => Bool.noConfusion ends.2
          have passed : net.Move .deciding ⟨id, .root⟩ ⟨next, .root⟩ := .pass passable edge ⟨rfl, rfl, nofun⟩
          exact ⟨_, passed, .intro ⟨nextListed, kind⟩ CallStack.invoked_nil nextRule outward⟩

/-- Where a path goes, its shadow goes, unless it comes to a predicate. -/
theorem Shadow.move
    (shape : net.WellFormed) (back : net.LeadsBack) (shadow : net.Shadow p q) (move : net.Move {} p r)
    (unhit : ¬ net.Emits .deciding q Symbol.invalid) : ∃ s, net.Move .deciding q s ∧ net.Shadow r s := by
  obtain @⟨id, above, links, rule, inside, invoked, grounded, chain⟩ := shadow
  -- Above the callers the shadow makes the same move; only a return to the first of them looks different.
  rcases lower_move invoked move with ⟨rest, stack, inner⟩ | ⟨bare, stops⟩
  · have narrowed := narrow_move invoked inner unhit
    have lifted : net.Move .deciding ⟨id, above ++ .root⟩ ⟨r.state, rest ++ .root⟩ :=
      lift_move (fun other _ => (passable_root_iff (by decide)).mpr fun ends => Bool.noConfusion ends.2) invoked narrowed
    refine ⟨_, lifted, ?_⟩
    obtain ⟨state, whole⟩ := r
    simp only at stack
    subst stack
    exact .intro (shape.inside_of_move inside.1 inner) (invoked_of_move shape inside.1 invoked inner)
      (shape.grounded_of_move inside grounded inner) chain
  · subst bare
    exact shadow_of_return shape back inside.1 grounded stops chain move

/-- Whatever comes first on a path comes first on its shadow, unless a predicate does. -/
theorem Shadow.first
    (shape : net.WellFormed) (back : net.LeadsBack) (shadow : net.Shadow p q) (first : net.First {} p x)
    (real : x ≠ Symbol.endOfInput) (unhit : ¬ net.First .deciding q Symbol.invalid) : net.First .deciding q x := by
  obtain ⟨steps, last, path, emits⟩ := first
  induction path generalizing q with
  | here p => exact ⟨0, q, .here q, shadow.emits emits real⟩
  | step move _ inductionHypothesis =>
      have still : ¬ net.Emits .deciding q Symbol.invalid := fun hit => unhit ⟨0, q, .here q, hit⟩
      obtain ⟨s, moved, later⟩ := shadow.move shape back move still
      have one : net.Reaches .deciding q s := ⟨1, .step moved (.here s)⟩
      exact .of_reaches one (inductionHypothesis later (fun hit => unhit (.of_reaches one hit)) emits)

end Shadow

end Network

end GrammarNet
