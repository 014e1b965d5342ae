import GrammarNet.Proofs.Pushdown.Labels
import GrammarNet.Proofs.Search.Ends
import GrammarNet.Proofs.Search.Moves
import GrammarNet.Proofs.Search.SameGraph

/-!
# Searches that cannot fail

On a network whose transitions lead to listed states, whose invocations are alone in their states and go on somewhere,
and whose labels were filled, a search never comes to a task that fails, as long as the links of its chain invoke a
rule. Nothing is assumed of the rules to which the states belong.
-/

namespace GrammarNet

namespace Network

/-- A network through which a search finds its way. -/
structure Navigable (net : Network) : Prop where
  numbered : ∀ id ∈ net.listed, net.slot? (net.state id).number = some id
  targets : ∀ id ∈ net.listed, ∀ t ∈ (net.state id).transitions, t.target ∈ net.listed
  invocations : ∀ id ∈ net.listed, ∀ t ∈ (net.state id).transitions, t.isRule = true →
    (net.state id).transitions = [t] ∧ ∃ next ∈ net.listed, t.kind.follow? = some next
  offers : ∀ id ∈ net.listed, ∀ t ∈ (net.state id).transitions, ∃ offer, t.kind.offer net.maxSymbol = .ok offer

section Navigable

variable {net : Network} {link : Int}

/-- Where a link invokes a rule, the place to return to is found, and it is listed. -/
theorem Navigable.followState_of_invokes (navigable : net.Navigable) (invokes : net.Invokes link) :
    ∃ next ∈ net.listed, net.followState link = .ok (some next) := by
  obtain ⟨invoker, found, t, member, rule⟩ := invokes
  obtain ⟨alone, next, listed, follow⟩ := navigable.invocations invoker (mem_listed_of_slot? found) t member rule
  refine ⟨next, listed, ?_⟩
  unfold followState
  simp only [found, alone, List.head?_cons]
  obtain ⟨target, kind⟩ := t
  cases kind <;> simp_all [Transition.isRule, TransitionKind.isRule, TransitionKind.follow?]

/-- Where a link does not, the fault says so. -/
theorem followState_of_not_invokes (stranded : ¬ net.Invokes link) :
    ∃ defect, net.followState link = .error (.malformed defect) := by
  unfold followState
  cases found : net.slot? link with
  | none => exact ⟨_, rfl⟩
  | some invoker =>
      simp only
      cases head : (net.state invoker).transitions.head? with
      | none => exact ⟨_, rfl⟩
      | some t =>
          have noRule : t.isRule = false := by
            apply Bool.eq_false_iff.mpr
            intro rule
            exact stranded ⟨invoker, found, t, List.mem_of_head? head, rule⟩
          obtain ⟨target, kind⟩ := t
          cases kind <;> first | exact ⟨_, rfl⟩ | exact Bool.noConfusion noRule

theorem SameGraph.listed {net other : Network} (same : net.SameGraph other) : other.listed = net.listed := by
  unfold Network.listed
  rw [same.slots]

theorem Navigable.of_sameGraph {net other : Network} (navigable : net.Navigable) (same : net.SameGraph other) :
    other.Navigable := by
  have listed := same.listed
  constructor
  · intro id member
    rw [same.number, same.slot?]
    exact navigable.numbered id (listed ▸ member)
  · intro id member
    rw [same.transitions, listed]
    exact navigable.targets id (listed ▸ member)
  · intro id member
    rw [same.transitions, listed]
    exact navigable.invocations id (listed ▸ member)
  · intro id member
    rw [same.transitions, same.maxSymbol]
    exact navigable.offers id (listed ▸ member)

end Navigable

end Network

/-- Nothing can go wrong with the task: it visits a listed state under links that invoke a rule, or what it offers is a
set. -/
def Task.Safe (net : Network) : Task → Prop
  | .visit config => ∃ id ∈ net.listed, config.state = some id ∧ net.Invoking config.stack
  | .report _ => True
  | .consume kind => ∃ offer, kind.offer net.maxSymbol = .ok offer

namespace Search

section Safe

variable {net : Network} {mode : SearchMode} {id : StateId} {config : Config} {task : Task} {stack : CallStack}

theorem Leads.safe
    (navigable : net.Navigable) (listed : id ∈ net.listed) (invoking : net.Invoking config.stack)
    (leads : Leads net mode id config task) : task.Safe net := by
  cases leads with
  | halted _ => trivial
  | @returned link outer next chain invoked stops followed =>
      have inChain : link ∈ config.stack := by rw [chain]; exact List.mem_cons_self
      obtain ⟨target, targetListed, found⟩ := navigable.followState_of_invokes (invoking link inChain invoked)
      rw [found] at followed
      refine ⟨target, targetListed, (Except.ok.inj followed).symm, fun other member nonneg => ?_⟩
      apply invoking other _ nonneg
      rw [chain]
      exact List.mem_cons_of_mem link member
  | @followed t _ passable member followed =>
      have target : t.target ∈ net.listed := navigable.targets id listed t member
      cases followed with
      | passed _ => exact ⟨t.target, target, rfl, invoking⟩
      | entered invokes _ =>
          refine ⟨t.target, target, rfl, fun link inStack nonneg => ?_⟩
          rcases List.mem_cons.mp inStack with rfl | earlier
          · exact ⟨id, navigable.numbered id listed, t, member, invokes⟩
          · exact invoking link earlier nonneg
      | hit _ _ => trivial
      | consumed _ => exact navigable.offers id listed t member

/-- What a safe task leads to is safe. -/
theorem safe_of_performed
    (navigable : net.Navigable) {search next : Search} {rest : List Task}
    (safe : ∀ other ∈ search.pending, other.Safe net) (pending : search.pending = task :: rest)
    (performed : Performed net mode search rest task next) : ∀ other ∈ next.pending, other.Safe net := by
  have here : task.Safe net := safe task (pending ▸ List.mem_cons_self)
  have later : ∀ other ∈ rest, other.Safe net := fun other member =>
    safe other (pending ▸ List.mem_cons_of_mem task member)
  cases performed with
  | reported | consumed | passed => exact later
  | @expanded config id tasks state fresh expanded =>
      obtain ⟨same, listed, sameState, invoking⟩ := here
      rw [state] at sameState
      obtain rfl := Option.some.inj sameState
      intro other member
      rcases List.mem_append.mp member with child | old
      · exact Leads.safe navigable listed invoking ((mem_expand_iff expanded).mp child)
      · exact later other old

theorem not_refused_of_safe (navigable : net.Navigable) (safe : task.Safe net) {fault : Fault} :
    ¬ Refused net mode task fault := by
  intro refused
  cases refused with
  | consumed failed =>
      obtain ⟨offer, offered⟩ := safe
      rw [failed] at offered
      contradiction
  | nowhere state =>
      obtain ⟨id, _, present, _⟩ := safe
      rw [state] at present
      contradiction
  | @expanded config id fault state failed =>
      obtain ⟨same, _, present, invoking⟩ := safe
      obtain ⟨link, outer, chain, nonneg, _, lost⟩ := expand_error_iff.mp failed
      have inChain : link ∈ config.stack := by
        rw [show config.stack = link :: outer from chain]
        exact List.mem_cons_self
      obtain ⟨_, _, found⟩ := navigable.followState_of_invokes (invoking link inChain nonneg)
      rw [lost] at found
      contradiction

/-- From a listed state, under links that invoke a rule, every search yields a set. -/
theorem exists_lookahead_of_navigable
    (navigable : net.Navigable) (mode : SearchMode) (listed : id ∈ net.listed) (invoking : net.Invoking stack) :
    ∃ found, net.lookahead mode (some id) stack = .ok found := by
  obtain ⟨steps, ends, _⟩ := ends_lookahead net mode (some id) stack
  have atStart : ∀ task ∈ (Search.start (some id) stack).pending, task.Safe net := by
    intro task member
    rw [List.mem_singleton.mp member]
    exact ⟨id, listed, rfl, invoking⟩
  have outcomes := ends.invariant (P := fun search => ∀ task ∈ search.pending, task.Safe net) atStart
    fun safe pending performed => safe_of_performed navigable safe pending performed
  rcases outcomes with ⟨last, _, _, found⟩ | ⟨last, task, rest, fault, safe, pending, refused, _⟩
  · exact ⟨last.found, found⟩
  · have here : task.Safe net := safe task (pending ▸ List.mem_cons_self)
    exact absurd refused (not_refused_of_safe navigable here)

end Safe

end Search

end GrammarNet
