import GrammarNet.Proofs.Search.Growth
import GrammarNet.Proofs.Search.Sound

/-!
# What is offered shows in what is found

A search finds nothing but marks of ends and what the transitions on its way offer. What the offers have in common, what
is found has as well. No shape of the network is assumed.
-/

namespace GrammarNet

theorem mem_toOption_iff {α : Type} {outcome : Except Fault α} {a : α} : a ∈ outcome.toOption ↔ outcome = .ok a := by
  cases outcome <;> simp [Except.toOption]

/-- The ranges of what a transition of this kind offers are as `P` says. -/
def TransitionKind.Offers (P : Range → Prop) (greatest : Symbol) (kind : TransitionKind) : Prop :=
  ∀ offer, kind.offer greatest = .ok offer → ∀ r ∈ offer.ranges, P r

instance (P : Range → Prop) [DecidablePred P] (greatest : Symbol) (kind : TransitionKind) :
    Decidable (kind.Offers P greatest) :=
  decidable_of_iff (∀ offer ∈ (kind.offer greatest).toOption, ∀ r ∈ offer.ranges, P r)
    (by simp only [mem_toOption_iff, TransitionKind.Offers])

theorem TransitionKind.Offers.mono
    {P Q : Range → Prop} {greatest : Symbol} {kind : TransitionKind} (offers : kind.Offers P greatest)
    (implies : ∀ {r : Range}, P r → Q r) : kind.Offers Q greatest :=
  fun offer offered r member => implies (offers offer offered r member)

/-- A transition that is passed without consuming a symbol offers nothing. -/
theorem TransitionKind.offers_of_isEpsilon
    {P : Range → Prop} {greatest : Symbol} {kind : TransitionKind} (free : kind.isEpsilon = true) :
    kind.Offers P greatest := by
  intro offer offered r member
  cases kind with
  | abstractPredicate | epsilon | rule | predicate | precedence | action =>
      obtain rfl := Except.ok.inj offered
      exact absurd member List.not_mem_nil
  | plain | atom | range | set | notSet | wildcard => exact Bool.noConfusion free

namespace Network

/-- The ranges of what the transitions of the network offer are as `P` says, whether their states are listed or not. -/
def Offers (P : Range → Prop) (net : Network) : Prop :=
  ∀ s ∈ net.store.toList, ∀ t ∈ s.transitions, t.kind.Offers P net.maxSymbol

instance (P : Range → Prop) [DecidablePred P] (net : Network) : Decidable (net.Offers P) :=
  inferInstanceAs (Decidable (∀ s ∈ net.store.toList, ∀ t ∈ s.transitions, t.kind.Offers P net.maxSymbol))

theorem Offers.of_mem
    {P : Range → Prop} {net : Network} (offers : net.Offers P) {id : StateId} {t : Transition}
    (member : t ∈ (net.state id).transitions) : t.kind.Offers P net.maxSymbol :=
  offers _ (state_mem_store member) t member

end Network

/-- The task visits what lies on a path from `origin`, reports a mark, or brings ranges that are as `P` says. -/
def Task.Brings (net : Network) (mode : SearchMode) (P : Range → Prop) (origin : Config) : Task → Prop
  | .visit config => Search.Calling net mode origin config
  | .report x => Symbol.epsilon ≤ x
  | .consume kind => kind.Offers P net.maxSymbol

namespace Search

section Offers

variable {net : Network} {mode : SearchMode} {P : Range → Prop} {origin config : Config} {id : StateId} {task : Task}

theorem Leads.brings
    (path : Calling net mode origin config) (state : config.state = some id)
    (offers : ∀ t ∈ (net.state id).transitions, t.kind.Offers P net.maxSymbol) (leads : Leads net mode id config task) :
    task.Brings net mode P origin := by
  cases task with
  | visit next => exact path.tail ⟨id, state, leads⟩
  | report x => exact epsilon_le_of_leads leads
  | consume kind =>
      obtain ⟨_, t, member, same⟩ := leads.transition
      exact same ▸ offers t member

/-- What a task leaves behind is as before if all transitions on the way offer what they should. -/
theorem brings_of_performed
    (admits : Admits P)
    (offers : ∀ config id, Calling net mode origin config → config.state = some id →
      ∀ t ∈ (net.state id).transitions, t.kind.Offers P net.maxSymbol)
    {search next : Search} {rest : List Task}
    (brings : ∀ other ∈ search.pending, other.Brings net mode P origin) (kept : search.found.Kept P)
    (pending : search.pending = task :: rest) (performed : Performed net mode search rest task next) :
    (∀ other ∈ next.pending, other.Brings net mode P origin) ∧ next.found.Kept P := by
  have here : task.Brings net mode P origin := brings task (pending ▸ List.mem_cons_self)
  have later : ∀ other ∈ rest, other.Brings net mode P origin := fun other member =>
    brings other (pending ▸ List.mem_cons_of_mem task member)
  cases performed with
  | reported x => exact ⟨later, kept.insertRange admits (admits.mark here)⟩
  | consumed offered => exact ⟨later, kept.union admits (here _ offered)⟩
  | passed => exact ⟨later, kept⟩
  | @expanded config id tasks state fresh expanded =>
      refine ⟨fun other member => ?_, kept⟩
      rcases List.mem_append.mp member with child | old
      · exact Leads.brings here state (offers config id here state) ((mem_expand_iff expanded).mp child)
      · exact later other old

/-- What a search finds has ranges as `P` says if all transitions on its way offer such ranges. -/
theorem kept_of_lookahead
    {state : Option StateId} {stack : CallStack} {found : RangeSet} (admits : Admits P)
    (offers : ∀ config id, Calling net mode ⟨state, stack, []⟩ config → config.state = some id →
      ∀ t ∈ (net.state id).transitions, t.kind.Offers P net.maxSymbol)
    (ok : net.lookahead mode state stack = .ok found) : found.Kept P := by
  obtain ⟨steps, ends, _⟩ := ends_lookahead net mode state stack
  have atStart : ∀ task ∈ (start state stack).pending, task.Brings net mode P ⟨state, stack, []⟩ := by
    intro task member
    rw [List.mem_singleton.mp member]
    exact .refl
  have outcomes := ends.invariant
    (P := fun search => (∀ task ∈ search.pending, task.Brings net mode P ⟨state, stack, []⟩) ∧ search.found.Kept P)
    ⟨atStart, .empty⟩ fun holds pending performed => brings_of_performed admits offers holds.1 holds.2 pending performed
  rcases outcomes with ⟨last, ⟨_, kept⟩, _, outcome⟩ | ⟨_, _, _, _, _, _, _, outcome⟩
  · rw [ok] at outcome
    exact Except.ok.inj outcome ▸ kept
  · rw [ok] at outcome
    contradiction

end Offers

end Search

/-- What any search of the network finds has ranges as `P` says if all its transitions offer such ranges. -/
theorem Network.Offers.kept
    {P : Range → Prop} {net : Network} {mode : SearchMode} {state : Option StateId} {stack : CallStack} {found : RangeSet}
    (admits : Admits P) (offers : net.Offers P) (ok : net.lookahead mode state stack = .ok found) : found.Kept P :=
  Search.kept_of_lookahead admits (fun _ _ _ _ _ member => offers.of_mem member) ok

end GrammarNet
