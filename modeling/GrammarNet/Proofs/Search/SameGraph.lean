import GrammarNet.Proofs.Search.Unread

/-!
# Lookahead depends on the graph alone

Two networks have the same graph if a search cannot tell them apart: they differ at most in what is kept with their
states, in the tables, and in the parts that states play besides that of a rule stop. So what queries keep with the
states has no effect on later searches.
-/

namespace GrammarNet

namespace Network

/-- The networks have the same slots, vocabulary and rule stops, and states with the same number, rule and transitions. -/
structure SameGraph (net other : Network) : Prop where
  slots : other.slots = net.slots
  maxSymbol : other.maxSymbol = net.maxSymbol
  number : ∀ id, (other.state id).number = (net.state id).number
  rule : ∀ id, (other.state id).rule = (net.state id).rule
  isRuleStop : ∀ id, (other.state id).isRuleStop = (net.state id).isRuleStop
  transitions : ∀ id, (other.state id).transitions = (net.state id).transitions

theorem state_modify (net : Network) (id other : StateId) (f : State → State) :
    (net.modify id f).state other = net.state other ∨
      other = id ∧ (net.modify id f).state other = f (net.state other) := by
  unfold modify state
  simp only [Array.getElem?_modify]
  split
  · rename_i same
    subst same
    cases net.store[id]? with
    | none => exact Or.inl rfl
    | some s => exact Or.inr ⟨rfl, rfl⟩
  · exact Or.inl rfl

theorem state_modify_self {net : Network} {id : StateId} {f : State → State} (made : id < net.store.size) :
    (net.modify id f).state id = f (net.state id) := by
  unfold modify state
  rw [Array.getElem?_modify, if_pos rfl, Array.getElem?_eq_getElem made]
  rfl

theorem state_modify_of_ne {net : Network} {id other : StateId} {f : State → State} (apart : other ≠ id) :
    (net.modify id f).state other = net.state other := by
  rcases net.state_modify id other f with kept | ⟨same, _⟩
  · exact kept
  · exact absurd same apart

/-- What a change of a state does not touch stays as it is. -/
theorem read_modify
    {β : Type} (net : Network) (id : StateId) {f : State → State} (read : State → β) (blind : ∀ s, read (f s) = read s)
    (other : StateId) : read ((net.modify id f).state other) = read (net.state other) := by
  rcases net.state_modify id other f with same | ⟨_, changed⟩
  · exact congrArg read same
  · exact (congrArg read changed).trans (blind _)

namespace SameGraph

variable {net other last : Network}

theorem refl (net : Network) : net.SameGraph net := ⟨rfl, rfl, fun _ => rfl, fun _ => rfl, fun _ => rfl, fun _ => rfl⟩

theorem trans (same : net.SameGraph other) (later : other.SameGraph last) : net.SameGraph last :=
  ⟨later.slots.trans same.slots, later.maxSymbol.trans same.maxSymbol,
    fun id => (later.number id).trans (same.number id), fun id => (later.rule id).trans (same.rule id),
    fun id => (later.isRuleStop id).trans (same.isRuleStop id),
    fun id => (later.transitions id).trans (same.transitions id)⟩

/-- Keeping an answer with a state leaves the graph as it is. -/
theorem keep (same : net.SameGraph other) (id : StateId) (next : RangeSet) :
    net.SameGraph (other.modify id fun s => { s with withinRule := some next }) := by
  apply same.trans
  constructor
  · rfl
  · rfl
  · exact other.read_modify id State.number fun _ => rfl
  · exact other.read_modify id State.rule fun _ => rfl
  · exact other.read_modify id State.isRuleStop fun _ => rfl
  · exact other.read_modify id State.transitions fun _ => rfl

/-- Not even hidden transitions differ. -/
theorem sameBut (same : net.SameGraph other) (hidden : Excerpt → Prop) : net.SameBut hidden other where
  slots := same.slots
  maxSymbol := same.maxSymbol
  number := same.number
  rule := same.rule
  isRuleStop := same.isRuleStop
  transitions := by
    intro read _
    cases read with
    | all id => exact same.transitions id
    | first id => exact congrArg (List.take 1) (same.transitions id)

theorem slot? (same : net.SameGraph other) (number : Int) : other.slot? number = net.slot? number :=
  (same.sameBut fun _ => False).slot? number

theorem followState (same : net.SameGraph other) (link : Int) : other.followState link = net.followState link :=
  (same.sameBut fun _ => False).followState fun _ _ => id

theorem lookahead
    (same : net.SameGraph other) (mode : SearchMode) (state : Option StateId) (stack : CallStack) :
    other.lookahead mode state stack = net.lookahead mode state stack :=
  (same.sameBut fun _ => False).lookahead fun _ _ => id

end SameGraph

end Network

end GrammarNet
