import Mathlib.Logic.Relation
import GrammarNet.Construction
import GrammarNet.Proofs.Pushdown.Basic
import GrammarNet.Proofs.Search.SameGraph
import GrammarNet.Proofs.Workspace.Runs

/-!
# What a builder does to a network

A builder makes states, rules and blocks, draws transitions and invokes rules, all on states that it has made. Whatever
it does comes down to a few changes of the network, listed once by `Change`; a step that fails has made some of them, or
none.
-/

namespace GrammarNet

/-- The label of a transition of this kind, if it has one, was filled. -/
def TransitionKind.Filled (kind : TransitionKind) : Prop :=
  ∀ label ∈ kind.label?, label.set.ranges?.isSome = true

instance (kind : TransitionKind) : Decidable kind.Filled :=
  inferInstanceAs (Decidable (∀ label ∈ kind.label?, label.set.ranges?.isSome = true))

/-- The transition leads to states among the first `size`, and its label was filled. -/
structure Transition.Made (size : Nat) (t : Transition) : Prop where
  target : t.target < size
  follow : ∀ next ∈ t.kind.follow?, next < size
  filled : t.kind.Filled

theorem Transition.Made.mono {size larger : Nat} {t : Transition} (made : t.Made size) (grows : size ≤ larger) :
    t.Made larger where
  target := Nat.lt_of_lt_of_le made.target grows
  follow := fun next member => Nat.lt_of_lt_of_le (made.follow next member) grows
  filled := made.filled

namespace Network

/-! ## Networks that grow -/

/-- The network with a further state, which is listed in the next slot. -/
def grown (net : Network) (kind : StateKind) (rule : Int) : Network :=
  { net with
    store := net.store.push { State.ofKind kind rule with owned := true, number := net.slots.size }
    slots := net.slots.push (some net.store.size) }

/-- The state is the one in which `rule` starts or stops, as `kind` says. -/
structure Marks (net : Network) (kind : StateKind) (rule : Nat) (id : StateId) : Prop where
  made : id < net.store.size
  kind : (net.state id).kind = kind
  rule : (net.state id).rule = rule

/-- The states in which a rule starts and stops. -/
structure Delimits (net : Network) (rule : Nat) (start stop : StateId) : Prop where
  start : net.ruleStarts[rule]? = some (some start)
  stop : net.ruleStops[rule]? = some (some stop)

section Grown

variable {net : Network} {kind : StateKind} {rule : Int} {id : StateId}

theorem state_grown_of_lt (small : id < net.store.size) : (net.grown kind rule).state id = net.state id := by
  unfold grown state
  rw [Array.getElem?_push_lt small, Array.getElem?_eq_getElem small]

theorem state_grown_size :
    (net.grown kind rule).state net.store.size =
      { State.ofKind kind rule with owned := true, number := net.slots.size } := by
  unfold grown state
  rw [Array.getElem?_push_size]
  rfl

theorem state_of_size_le (large : net.store.size ≤ id) : net.state id = default := by
  unfold state
  rw [Array.getElem?_eq_none large]
  rfl

theorem size_grown : (net.grown kind rule).store.size = net.store.size + 1 := Array.size_push _

theorem size_modify (f : State → State) : (net.modify id f).store.size = net.store.size := Array.size_modify

end Grown

end Network

namespace Construction

open NetM

/-! ## Changes -/

/-- A change that a builder makes. With `direct`, transitions that invoke a rule may be added like others; without, only
together with the transition from the stop of the rule to the state where the invoking rule goes on. -/
inductive Change (direct : Bool) (net : Network) : Network → Prop
  /-- A state is made and listed. -/
  | grown (kind : StateKind) (rule : Int) : Change direct net (net.grown kind rule)
  /-- Attributes are set that no search reads. -/
  | adorned (id : StateId) (f : Attributes → Attributes) (keeps : ∀ a, a.leftRecursive ≠ none → (f a).leftRecursive ≠ none) :
      Change direct net (net.modify id fun s => { s with attributes := f s.attributes })
  /-- Tables change that no search reads. -/
  | noted (decisions modes : Array (Option StateId)) (names : List (String × Option StateId)) (actions : Array LexerAction) :
      Change direct net
        { net with decisions := decisions, modes := modes, modeNames := names, actions := actions }
  /-- The next rule gets its start and its stop. -/
  | registered {start stop : StateId} (symbols : Option (Array Symbol))
      (starts : net.Marks .ruleStart net.ruleStarts.size start) (stops : net.Marks .ruleStop net.ruleStarts.size stop) :
      Change direct net
        { net with
          ruleStarts := net.ruleStarts.push (some start)
          ruleStops := net.ruleStops.push (some stop)
          ruleSymbols := symbols }
  /-- A state gets a transition. -/
  | attached {id : StateId} {t : Transition} (made : id < net.store.size) (proper : t.Made net.store.size)
      (allowed : t.isRule = true → direct = true) :
      Change direct net (net.modify id (·.addTransition t none))
  /-- A state invokes a rule, which returns to `next`. -/
  | invoked {id start stop next : StateId} {rule : Nat} (index precedence outermost : Int) (made : id < net.store.size)
      (proper : next < net.store.size) (callee : net.Delimits rule start stop) :
      Change direct net
        ((net.modify id (·.addTransition ⟨start, .rule index precedence (some next)⟩ none)).modify stop
          (·.addTransition ⟨next, .epsilon outermost⟩ none))
  /-- A state invokes a rule without a place to go on at. -/
  | stranded {id start stop : StateId} {rule : Nat} (index precedence : Int) (made : id < net.store.size)
      (callee : net.Delimits rule start stop) :
      Change direct net (net.modify id (·.addTransition ⟨start, .rule index precedence none⟩ none))

/-- An entry of a table that has grown is the one added last, or it was there before. -/
theorem entry_of_push
    {α : Type} {table : Array α} {added entry : α} {place : Nat} (found : (table.push added)[place]? = some entry) :
    (place = table.size ∧ added = entry) ∨ table[place]? = some entry := by
  rw [Array.getElem?_push] at found
  by_cases last : place = table.size
  · rw [if_pos last] at found
    exact Or.inl ⟨last, Option.some.inj found⟩
  · rw [if_neg last] at found
    exact Or.inr found

/-- Some changes, one after the other. -/
abbrev Changes (direct : Bool) : Network → Network → Prop := Relation.ReflTransGen (Change direct)

/-! ## What the changes keep -/

/-- The shape that a network has at every time of its construction by a builder. -/
structure Assembled (net : Network) : Prop where
  /-- Every state that was made is listed, in the order of their making. -/
  slots : net.slots = (Array.range net.store.size).map some
  numbered : ∀ id < net.store.size, (net.state id).number = id
  unknown : ∀ id, (net.state id).withinRule = none
  transitions : ∀ id, ∀ t ∈ (net.state id).transitions, t.Made net.store.size
  starts : ∀ rule entry, net.ruleStarts[rule]? = some entry → ∃ start, entry = some start ∧ net.Marks .ruleStart rule start
  stops : ∀ rule entry, net.ruleStops[rule]? = some entry → ∃ stop, entry = some stop ∧ net.Marks .ruleStop rule stop
  paired : net.ruleStops.size = net.ruleStarts.size
  recursion : ∀ id, (net.state id).kind = .ruleStart → (net.state id).attributes.leftRecursive ≠ none

/-- The state plays the part that it has always played: only its other attributes and its transitions may differ. -/
structure Alike (s later : State) : Prop where
  kind : later.kind = s.kind
  rule : later.rule = s.rule
  number : later.number = s.number
  withinRule : later.withinRule = s.withinRule
  recursion : s.attributes.leftRecursive ≠ none → later.attributes.leftRecursive ≠ none

section Assembled

variable {direct : Bool} {net later : Network} {id : StateId}

theorem assembled_initial (kind : NetworkKind) (maxSymbol : Symbol) (keepRuleSymbols : Bool) :
    Assembled (.initial kind maxSymbol keepRuleSymbols) where
  slots := by simp [Network.initial]
  numbered := fun id small => absurd small (Nat.not_lt_zero id)
  unknown := fun id => rfl
  transitions := fun id t member => absurd member List.not_mem_nil
  starts := fun rule entry found => nomatch found
  stops := fun rule entry found => nomatch found
  paired := rfl
  recursion := fun id starts => nomatch starts

theorem alike_addTransition (s : State) (t : Transition) : Alike s (s.addTransition t none) :=
  ⟨rfl, rfl, rfl, rfl, id⟩

theorem alike_adorned {f : Attributes → Attributes} (keeps : ∀ a, a.leftRecursive ≠ none → (f a).leftRecursive ≠ none)
    (s : State) : Alike s { s with attributes := f s.attributes } :=
  ⟨rfl, rfl, rfl, rfl, keeps s.attributes⟩

theorem alike_modify {f : State → State} (alike : ∀ s, Alike s (f s)) (other : StateId) :
    Alike (net.state other) ((net.modify id f).state other) := by
  rcases net.state_modify id other f with kept | ⟨_, changed⟩
  · rw [kept]
    exact ⟨rfl, rfl, rfl, rfl, fun present => present⟩
  · rw [changed]
    exact alike _

theorem Marks.modify
    {kind : StateKind} {rule : Nat} {other : StateId} {f : State → State} (marks : net.Marks kind rule other)
    (alike : ∀ s, Alike s (f s)) : (net.modify id f).Marks kind rule other := by
  have same : Alike (net.state other) ((net.modify id f).state other) := alike_modify alike other
  refine ⟨?_, same.kind.trans marks.kind, same.rule.trans marks.rule⟩
  rw [Network.size_modify]
  exact marks.made

theorem Assembled.modify
    (assembled : Assembled net) {f : State → State} (alike : ∀ s, Alike s (f s))
    (made : ∀ s, ∀ t ∈ (f s).transitions, t ∈ s.transitions ∨ t.Made net.store.size) :
    Assembled (net.modify id f) := by
  have same : ∀ other, Alike (net.state other) ((net.modify id f).state other) := alike_modify alike
  constructor
  · rw [Network.size_modify]
    exact assembled.slots
  · intro other small
    rw [Network.size_modify] at small
    exact (same other).number.trans (assembled.numbered other small)
  · exact fun other => (same other).withinRule.trans (assembled.unknown other)
  · intro other t member
    rw [Network.size_modify]
    rcases net.state_modify id other f with kept | ⟨_, changed⟩
    · rw [kept] at member
      exact assembled.transitions other t member
    · rw [changed] at member
      rcases made _ t member with old | new
      · exact assembled.transitions other t old
      · exact new
  · intro rule entry found
    obtain ⟨start, present, starts⟩ := assembled.starts rule entry found
    exact ⟨start, present, Marks.modify starts alike⟩
  · intro rule entry found
    obtain ⟨stop, present, stops⟩ := assembled.stops rule entry found
    exact ⟨stop, present, Marks.modify stops alike⟩
  · exact assembled.paired
  · intro other starts
    rw [(same other).kind] at starts
    exact (same other).recursion (assembled.recursion other starts)

theorem Assembled.addTransition (assembled : Assembled net) {t : Transition} (made : t.Made net.store.size) :
    Assembled (net.modify id (·.addTransition t none)) := by
  apply assembled.modify
  · exact fun s => alike_addTransition s t
  · intro s u member
    rcases List.mem_append.mp member with old | new
    · exact Or.inl old
    · rw [List.mem_singleton.mp new]
      exact Or.inr made

theorem state_grown_cases (net : Network) (kind : StateKind) (rule : Int) (id : StateId) :
    (id ≠ net.store.size ∧ (net.grown kind rule).state id = net.state id) ∨
      (id = net.store.size ∧ (net.grown kind rule).state id =
        { State.ofKind kind rule with owned := true, number := net.slots.size }) := by
  rcases Nat.lt_trichotomy id net.store.size with small | rfl | large
  · exact Or.inl ⟨Nat.ne_of_lt small, Network.state_grown_of_lt small⟩
  · exact Or.inr ⟨rfl, Network.state_grown_size⟩
  · have beyond : (net.grown kind rule).store.size ≤ id := by
      rw [Network.size_grown]
      exact large
    rw [Network.state_of_size_le beyond, Network.state_of_size_le (Nat.le_of_lt large)]
    exact Or.inl ⟨Nat.ne_of_gt large, rfl⟩

theorem Marks.grown {mark kind : StateKind} {index : Nat} {rule : Int} (marks : net.Marks mark index id) :
    (net.grown kind rule).Marks mark index id := by
  have same : (net.grown kind rule).state id = net.state id := Network.state_grown_of_lt marks.made
  refine ⟨?_, ?_, ?_⟩
  · rw [Network.size_grown]
    exact Nat.lt_succ_of_lt marks.made
  · rw [same, marks.kind]
  · rw [same, marks.rule]

/-- A state that is made for a rule is marked as it was made. -/
theorem marks_grown (net : Network) (kind : StateKind) (rule : Nat) :
    (net.grown kind rule).Marks kind rule net.store.size := by
  have new : (net.grown kind rule).state net.store.size =
      { State.ofKind kind rule with owned := true, number := net.slots.size } :=
    Network.state_grown_size
  refine ⟨?_, by rw [new]; rfl, by rw [new]; rfl⟩
  rw [Network.size_grown]
  exact Nat.lt_succ_self _

theorem Assembled.grown (assembled : Assembled net) (kind : StateKind) (rule : Int) :
    Assembled (net.grown kind rule) := by
  have counted : net.slots.size = net.store.size := by
    rw [assembled.slots, Array.size_map, Array.size_range]
  constructor
  · rw [Network.size_grown, Array.range_succ, Array.map_append, ← assembled.slots]
    show net.slots.push (some net.store.size) = _
    simp
  · intro id small
    rw [Network.size_grown] at small
    rcases state_grown_cases net kind rule id with ⟨other, old⟩ | ⟨rfl, new⟩
    · rw [old]
      exact assembled.numbered id (Nat.lt_of_le_of_ne (Nat.lt_succ_iff.mp small) other)
    · rw [new, counted]
  · intro id
    rcases state_grown_cases net kind rule id with ⟨_, old⟩ | ⟨_, new⟩
    · rw [old]
      exact assembled.unknown id
    · rw [new]
      rfl
  · intro id t member
    rw [Network.size_grown]
    rcases state_grown_cases net kind rule id with ⟨_, old⟩ | ⟨_, new⟩
    · rw [old] at member
      exact (assembled.transitions id t member).mono (Nat.le_succ _)
    · rw [new] at member
      exact absurd member List.not_mem_nil
  · intro index entry found
    obtain ⟨start, present, starts⟩ := assembled.starts index entry found
    exact ⟨start, present, Marks.grown starts⟩
  · intro index entry found
    obtain ⟨stop, present, stops⟩ := assembled.stops index entry found
    exact ⟨stop, present, Marks.grown stops⟩
  · exact assembled.paired
  · intro id starts
    rcases state_grown_cases net kind rule id with ⟨_, old⟩ | ⟨_, new⟩
    · rw [old] at starts ⊢
      exact assembled.recursion id starts
    · rw [new] at starts ⊢
      have same : kind = .ruleStart := starts
      subst same
      exact Option.some_ne_none _

theorem Assembled.registered
    {start stop : StateId} (assembled : Assembled net) (symbols : Option (Array Symbol))
    (starts : net.Marks .ruleStart net.ruleStarts.size start) (stops : net.Marks .ruleStop net.ruleStarts.size stop) :
    Assembled
      { net with
        ruleStarts := net.ruleStarts.push (some start)
        ruleStops := net.ruleStops.push (some stop)
        ruleSymbols := symbols } where
  slots := assembled.slots
  numbered := assembled.numbered
  unknown := assembled.unknown
  transitions := assembled.transitions
  starts := by
    intro rule entry found
    rcases entry_of_push found with ⟨rfl, rfl⟩ | old
    · exact ⟨start, rfl, ⟨starts.made, starts.kind, starts.rule⟩⟩
    · obtain ⟨known, present, marks⟩ := assembled.starts rule entry old
      exact ⟨known, present, ⟨marks.made, marks.kind, marks.rule⟩⟩
  stops := by
    intro rule entry found
    rcases entry_of_push found with ⟨rfl, rfl⟩ | old
    · rw [assembled.paired]
      exact ⟨stop, rfl, ⟨stops.made, stops.kind, stops.rule⟩⟩
    · obtain ⟨known, present, marks⟩ := assembled.stops rule entry old
      exact ⟨known, present, ⟨marks.made, marks.kind, marks.rule⟩⟩
  paired := by
    show (net.ruleStops.push _).size = (net.ruleStarts.push _).size
    rw [Array.size_push, Array.size_push, assembled.paired]
  recursion := assembled.recursion

theorem Assembled.delimits
    {rule : Nat} {start stop : StateId} (assembled : Assembled net) (callee : net.Delimits rule start stop) :
    net.Marks .ruleStart rule start ∧ net.Marks .ruleStop rule stop := by
  obtain ⟨known, present, starts⟩ := assembled.starts rule _ callee.start
  obtain ⟨other, alsoPresent, stops⟩ := assembled.stops rule _ callee.stop
  rw [Option.some.inj present, Option.some.inj alsoPresent]
  exact ⟨starts, stops⟩

/-- The transition that invokes a rule leads to its start, and goes on at a state that was made. -/
theorem Assembled.made_rule
    {rule : Nat} {start stop : StateId} (assembled : Assembled net) (callee : net.Delimits rule start stop)
    (index precedence : Int) {next : Option StateId} (proper : ∀ id ∈ next, id < net.store.size) :
    Transition.Made net.store.size ⟨start, .rule index precedence next⟩ where
  target := (assembled.delimits callee).1.made
  follow := proper
  filled := fun _ labelled => nomatch labelled

theorem Assembled.change (assembled : Assembled net) (change : Change direct net later) : Assembled later := by
  cases change with
  | grown kind rule => exact assembled.grown kind rule
  | adorned id f keeps =>
      apply assembled.modify
      · exact alike_adorned keeps
      · exact fun s t member => Or.inl member
  | noted decisions modes names actions =>
      exact ⟨assembled.slots, assembled.numbered, assembled.unknown, assembled.transitions,
        fun rule entry found => (assembled.starts rule entry found).imp fun _ known =>
          ⟨known.1, ⟨known.2.made, known.2.kind, known.2.rule⟩⟩,
        fun rule entry found => (assembled.stops rule entry found).imp fun _ known =>
          ⟨known.1, ⟨known.2.made, known.2.kind, known.2.rule⟩⟩,
        assembled.paired, assembled.recursion⟩
  | registered symbols starts stops => exact assembled.registered symbols starts stops
  | attached made proper allowed => exact assembled.addTransition proper
  | @invoked id start stop next rule index precedence outermost made proper callee =>
      have invoking : Assembled (net.modify id (·.addTransition ⟨start, .rule index precedence (some next)⟩ none)) := by
        apply assembled.addTransition
        apply assembled.made_rule callee
        exact fun other same => Option.some.inj same ▸ proper
      apply invoking.addTransition
      rw [Network.size_modify]
      exact ⟨proper, (fun _ follow => nomatch follow), (fun _ labelled => nomatch labelled)⟩
  | stranded index precedence made callee =>
      apply assembled.addTransition
      apply assembled.made_rule callee
      exact fun other absent => nomatch absent

theorem Assembled.changes (assembled : Assembled net) (changes : Changes direct net later) : Assembled later := by
  induction changes with
  | refl => exact assembled
  | tail _ change inductionHypothesis => exact inductionHypothesis.change change

end Assembled

end Construction

end GrammarNet
