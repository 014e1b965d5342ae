import Mathlib.Data.Finset.Card
import Mathlib.Logic.Relation
import GrammarNet.Proofs.Search.Ends
import GrammarNet.Proofs.Search.Moves

/-!
# How far chains grow

Along every path of a search, a chain gains no link without a rule that is entered with it. Since a rule is entered
once before it is left, a chain outgrows the one at the start by no more than there are rules that transitions invoke.
No shape of the network is assumed.
-/

namespace GrammarNet

/-- The rules that transitions of the network invoke, each once. -/
def Network.calledRules (net : Network) : Finset Int :=
  (((net.store.toList.flatMap State.transitions).filter Transition.isRule).map fun t =>
    (net.state t.target).rule).toFinset

/-- A state with a transition is one that was made. -/
theorem Network.state_mem_store
    {net : Network} {id : StateId} {t : Transition} (member : t ∈ (net.state id).transitions) :
    net.state id ∈ net.store.toList := by
  unfold state at member ⊢
  cases made : net.store[id]? with
  | none =>
      rw [made] at member
      exact absurd member List.not_mem_nil
  | some s => exact Array.mem_toList_iff.mpr (Array.mem_of_getElem? made)

theorem Network.mem_calledRules
    {net : Network} {id : StateId} {t : Transition} (member : t ∈ (net.state id).transitions)
    (invokes : t.isRule = true) : (net.state t.target).rule ∈ net.calledRules :=
  List.mem_toFinset.mpr (List.mem_map.mpr
    ⟨t, List.mem_filter.mpr ⟨List.mem_flatMap.mpr ⟨_, state_mem_store member, member⟩, invokes⟩, rfl⟩)

namespace Search

/-- Visiting one configuration leads to visiting the next, whatever was visited before. -/
def Calls (net : Network) (mode : SearchMode) (config next : Config) : Prop :=
  ∃ id, config.state = some id ∧ Leads net mode id config (.visit next)

/-- Some finite path of visits leads from one configuration to the other. -/
abbrev Calling (net : Network) (mode : SearchMode) : Config → Config → Prop := Relation.ReflTransGen (Calls net mode)

/-- The searches that the tasks of a search lead to, one after the other. -/
inductive Reached (net : Network) (mode : SearchMode) (first : Search) : Search → Prop
  | start : Reached net mode first first
  | step {search next : Search} {task : Task} {rest : List Task} (earlier : Reached net mode first search)
      (pending : search.pending = task :: rest) (performed : perform net mode search task rest = .ok next) :
      Reached net mode first next

section Growth

variable {net : Network} {mode : SearchMode} {config next later : Config} {state : Option StateId} {stack : CallStack}

/-! ## One visit -/

theorem Calls.nodup_entered (calls : Calls net mode config next) (nodup : config.entered.Nodup) :
    next.entered.Nodup := by
  obtain ⟨id, _, leads⟩ := calls
  exact leads.nodup_entered nodup

theorem Calls.entered
    (calls : Calls net mode config next) (called : ∀ rule ∈ config.entered, rule ∈ net.calledRules) :
    ∀ rule ∈ next.entered, rule ∈ net.calledRules := by
  obtain ⟨id, _, leads⟩ := calls
  cases leads with
  | returned _ _ _ _ => exact fun rule member => called rule (List.mem_of_mem_erase member)
  | followed _ inState followed =>
      cases followed with
      | passed _ => exact called
      | entered invokes _ =>
          exact List.forall_mem_cons.mpr ⟨Network.mem_calledRules inState invokes, called⟩

/-- The links of the chain less the rules entered never become more. A return may take a link without a rule that was
entered, never a rule without a link. -/
theorem Calls.links_sub_entered_le (calls : Calls net mode config next) :
    (next.stack.length : Int) - next.entered.length ≤ config.stack.length - config.entered.length := by
  obtain ⟨id, _, leads⟩ := calls
  cases leads with
  | returned chain _ _ _ =>
      have left := @List.le_length_erase _ _ _ (net.state id).rule config.entered
      rw [chain]
      simp only [List.length_cons]
      omega
  | followed _ _ followed =>
      cases followed with
      | passed _ => exact Int.le_refl _
      | entered _ _ =>
          simp only [CallStack.push, List.length_cons]
          omega

/-! ## Paths of visits -/

theorem Calling.links_sub_entered_le (path : Calling net mode config later) :
    (later.stack.length : Int) - later.entered.length ≤ config.stack.length - config.entered.length := by
  induction path with
  | refl => exact Int.le_refl _
  | tail _ calls inductionHypothesis => exact Int.le_trans calls.links_sub_entered_le inductionHypothesis

theorem Calling.entered_of_start (path : Calling net mode ⟨state, stack, []⟩ later) :
    later.entered.Nodup ∧ ∀ rule ∈ later.entered, rule ∈ net.calledRules := by
  induction path with
  | refl => exact ⟨List.nodup_nil, by simp⟩
  | tail _ calls inductionHypothesis =>
      exact ⟨calls.nodup_entered inductionHypothesis.1, calls.entered inductionHypothesis.2⟩

/-- No chain outgrows the one at the start by more than the number of rules that are invoked. -/
theorem Calling.length_stack_le (path : Calling net mode ⟨state, stack, []⟩ later) :
    later.stack.length ≤ stack.length + net.calledRules.card := by
  obtain ⟨nodup, called⟩ := path.entered_of_start
  have few : later.entered.length ≤ net.calledRules.card := by
    rw [← List.toFinset_card_of_nodup nodup]
    exact Finset.card_le_card fun rule member => called rule (List.mem_toFinset.mp member)
  have bound := path.links_sub_entered_le
  simp only [List.length_nil] at bound
  omega

/-- Whatever a search is about to visit lies on a path of visits from where it began. -/
theorem Reached.calling
    {search : Search} (reached : Reached net mode (Search.start state stack) search)
    (pending : .visit config ∈ search.pending) :
    Calling net mode ⟨state, stack, []⟩ config := by
  induction reached generalizing config with
  | start =>
      injection List.mem_singleton.mp pending with same
      subst same
      exact .refl
  | @step search next task rest _ first performed inductionHypothesis =>
      have old : .visit config ∈ rest → Calling net mode ⟨state, stack, []⟩ config := fun member =>
        inductionHypothesis (first ▸ List.mem_cons_of_mem task member)
      cases performed_of_ok performed with
      | reported | consumed | passed => exact old pending
      | @expanded visited id tasks current _ expanded =>
          rcases List.mem_append.mp pending with child | member
          · have path := inductionHypothesis (first ▸ List.mem_cons_self)
            exact path.tail ⟨id, current, (mem_expand_iff expanded).mp child⟩
          · exact old member

end Growth

end Search

end GrammarNet
