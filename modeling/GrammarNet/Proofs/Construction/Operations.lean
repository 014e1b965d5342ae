import GrammarNet.Proofs.Construction.Changes

/-!
# What the operations of a builder do

One equation for each operation on states, decisions, rules and blocks: what it yields, and the network that it leaves
behind. Later arguments cite these and never run an operation again.
-/

namespace GrammarNet

namespace Network

/-- The network in which a state is the next decision, and is stamped with its place. -/
def withDecision (net : Network) (id : StateId) : Network :=
  { net with decisions := net.decisions.push (some id) }.modify id (·.set (.decision (some net.decisions.size)))

/-- The network with a start and a stop for the next rule, linked to each other, before the tables have them. -/
def withLimits (net : Network) : Network :=
  ((net.grown .ruleStart net.ruleStarts.size).grown .ruleStop net.ruleStarts.size).modify net.store.size
    (·.set (.stopState (some (net.store.size + 1))))

/-- The network with the next rule, whose start and stop are made for it. -/
def withRule (net : Network) (symbol : Symbol) : Network :=
  { net.withLimits with
    ruleStarts := net.ruleStarts.push (some net.store.size)
    ruleStops := net.ruleStops.push (some (net.store.size + 1))
    ruleSymbols := net.ruleSymbols.map (·.push symbol) }

/-- The network with a further block, whose start and end are linked to each other, before the start is a decision. -/
def withEnds (net : Network) (rule : Int) (kind : StateKind) : Network :=
  let start := net.store.size
  let stop := start + 1
  (((net.grown kind rule).grown .blockEnd rule).modify start (·.set (.endState (some stop)))).modify stop
    (·.set (.startState (some start)))

end Network

namespace Construction

open NetM

section Operations

variable {work : Workspace}

theorem push_modify_size {α : Type} (table : Array α) (a : α) (f : α → α) :
    (table.push a).modify table.size f = table.push (f a) := by
  apply Array.ext
  · rw [Array.size_modify, Array.size_push, Array.size_push]
  · intro i small _
    rw [Array.getElem_modify]
    by_cases last : table.size = i
    · subst last
      simp
    · rw [if_neg last]
      rw [Array.size_modify, Array.size_push] at small
      rw [Array.getElem_push_lt (by omega), Array.getElem_push_lt (by omega)]

/-! ## States and tables -/

theorem runOn_add (kind : StateKind) (rule : Int) (work : Workspace) :
    (add kind rule).runOn work = (.ok work.net.store.size, { work with net := work.net.grown kind rule }) := by
  simp only [add, make, list, runOn_bind, runOn_network, runOn_change, runOn_pure]
  unfold Network.grown Network.modify
  simp only [push_modify_size]

theorem runOn_set (id : StateId) (value : Attribute) (work : Workspace) :
    (set (some id) value).runOn work = (.ok (), { work with net := work.net.modify id (·.set value) }) := by
  simp only [set, required, runOn_bind, runOn_lift, runOn_change]

theorem runOn_decision (id : StateId) (work : Workspace) :
    (decision (some id)).runOn work = (.ok work.net.decisions.size, { work with net := work.net.withDecision id }) := by
  simp only [decision, runOn_bind, runOn_network, runOn_change, runOn_set, runOn_pure]
  rfl

/-- Without a state there is nothing to stamp, but the place is taken. -/
theorem runOn_decision_none (work : Workspace) :
    (decision none).runOn work =
      (.error .noState, { work with net := { work.net with decisions := work.net.decisions.push none } }) := by
  simp only [decision, set, required, runOn_bind, runOn_network, runOn_change, runOn_lift]

theorem runOn_rule (symbol : Symbol) (work : Workspace) :
    ((rule symbol).runOn work).1 = .ok (work.net.store.size, work.net.store.size + 1) ∧
      ((rule symbol).runOn work).2.net = work.net.withRule symbol := by
  simp only [rule, runOn_bind, runOn_network, runOn_add, runOn_set, runOn_change, runOn_report, runOn_pure,
    Network.size_grown]
  exact ⟨trivial, rfl⟩

/-- The start and the stop are marked with the index of the rule. -/
theorem marks_withLimits (net : Network) :
    net.withLimits.Marks .ruleStart net.ruleStarts.size net.store.size ∧
      net.withLimits.Marks .ruleStop net.ruleStarts.size (net.store.size + 1) := by
  let started := net.grown .ruleStart net.ruleStarts.size
  have size : started.store.size = net.store.size + 1 := Network.size_grown
  have linked : ∀ s : State, Alike s (s.set (.stopState (some (net.store.size + 1)))) := fun _ =>
    ⟨rfl, rfl, rfl, rfl, fun present => present⟩
  have stop := marks_grown started .ruleStop net.ruleStarts.size
  rw [size] at stop
  exact ⟨Marks.modify (Marks.grown (marks_grown net .ruleStart net.ruleStarts.size)) linked, Marks.modify stop linked⟩

theorem runOn_block (rule : Int) (kind : StateKind) (work : Workspace) :
    (block rule kind).runOn work =
      (.ok (work.net.store.size, work.net.store.size + 1),
        { work with net := (work.net.withEnds rule kind).withDecision work.net.store.size }) := by
  simp only [block, runOn_bind, runOn_add, runOn_set, runOn_decision, runOn_pure, Network.size_grown]
  rfl

theorem runOn_defineMode (state : Option StateId) (name : Option String) (work : Workspace) :
    ∃ names, ((defineMode state name).runOn work).2.net =
      { work.net with modes := work.net.modes.push state, modeNames := names } :=
  ⟨_, rfl⟩

/-! ## Transitions -/

/-- A position that is none is noticed after the state was made ready. -/
theorem net_runOn_attach (id : StateId) (t : Transition) (position : Option Int) (work : Workspace) :
    ((attach (some id) t position).runOn work).2.net =
      if position.all addressable = true then work.net.modify id (·.addTransition t position)
      else work.net.modify id (·.prepare t) := by
  simp only [attach, required, runOn_bind, runOn_lift, runOn_network]
  by_cases mixes : (work.net.state id).mixesWith t = true
  · by_cases proper : position.all addressable = true
    · simp [mixes, proper]
    · simp [mixes, proper]
  · by_cases proper : position.all addressable = true
    · simp [mixes, proper]
    · simp [mixes, proper]

theorem runOn_attach (id : StateId) (t : Transition) (work : Workspace) :
    ((attach (some id) t none).runOn work).1 = .ok () ∧
      ((attach (some id) t none).runOn work).2.net = work.net.modify id (·.addTransition t none) := by
  simp only [attach, required, runOn_bind, runOn_lift, runOn_network]
  by_cases mixes : (work.net.state id).mixesWith t = true
  · simp [mixes]
  · simp [mixes]

theorem runOn_connect (id goal : StateId) (kind : TransitionKind) (work : Workspace) :
    ((connect (some id) (some goal) kind none).runOn work).1 = .ok ⟨goal, kind⟩ ∧
      ((connect (some id) (some goal) kind none).runOn work).2.net =
        work.net.modify id (·.addTransition ⟨goal, kind⟩ none) := by
  obtain ⟨succeeds, attached⟩ := runOn_attach id ⟨goal, kind⟩ work
  simp only [connect, transitionTo, runOn_bind, runOn_lift]
  generalize (attach (some id) ⟨goal, kind⟩ none).runOn work = left at succeeds attached
  obtain ⟨outcome, later⟩ := left
  simp only at succeeds attached
  subst succeeds
  exact ⟨rfl, attached⟩

/-- What was reported does not depend on the position: whether the state now mixes transitions that consume with others. -/
theorem log_runOn_attach (id : StateId) (t : Transition) (position : Option Int) (work : Workspace) :
    ((attach (some id) t position).runOn work).2.log =
      work.log ++ List.replicate ((work.net.state id).mixesWith t).toNat
        (.mixedTransitions (work.net.state id).number) := by
  simp only [attach, required, runOn_bind, runOn_lift, runOn_network]
  cases mixes : (work.net.state id).mixesWith t with
  | false =>
      by_cases proper : position.all addressable = true
      · simp [proper]
      · simp [proper]
  | true =>
      by_cases proper : position.all addressable = true
      · simp [proper]
      · simp [proper]

end Operations

/-! ## Transitions, related -/

section Related

variable {R : Network → Network → Prop} (refl : ∀ net, R net net)
  (trans : ∀ {net later last : Network}, R net later → R later last → R net last)
  (attaches : ∀ (work : Workspace) (source : Option StateId) (t : Transition) (position : Option Int),
    R work.net ((attach source t position).runOn work).2.net)

include refl trans attaches

/-- Whatever relates the networks before and after each transition that is added relates those before and after all that is
done to draw transitions. -/
theorem runOn_connect_related
    (source target : Option StateId) (kind : TransitionKind) (position : Option Int) (work : Workspace) :
    R work.net ((connect source target kind position).runOn work).2.net := by
  apply runOn_bind_related (R := R) trans
  · rw [runOn_lift]
    exact refl work.net
  · intro t _
    apply runOn_bind_related (R := R) trans
    · exact attaches _ source t position
    · exact fun _ _ => refl _

theorem runOn_draw_related (source target : Option StateId) (arrow : Arrow) (work : Workspace) :
    R work.net ((draw source target arrow).runOn work).2.net := by
  apply runOn_bind_related (R := R) trans (refl work.net)
  intro net _
  apply runOn_bind_related (R := R) trans
  · rw [runOn_lift]
    exact refl work.net
  · intro kind _
    exact runOn_connect_related refl trans attaches source target kind none _

theorem runOn_invoke_related
    (source : Option StateId) (rule : Int) (follow : Option StateId) (precedence : Int) (work : Workspace) :
    R work.net ((invoke source rule follow precedence).runOn work).2.net := by
  have looked : ∀ {α : Type} {outcome : Except Fault α} {work : Workspace},
      R work.net ((liftM outcome : NetM α).runOn work).2.net := by
    intro α outcome work
    rw [runOn_lift]
    exact refl work.net
  apply runOn_bind_related (R := R) trans (refl work.net)
  intro net _
  apply runOn_bind_related (R := R) trans looked
  intro start _
  apply runOn_bind_related (R := R) trans
  · exact attaches _ source ⟨start, .rule rule precedence follow⟩ none
  · intro _ _
    apply runOn_bind_related (R := R) trans (refl _)
    intro later _
    apply runOn_bind_related (R := R) trans looked
    intro flag _
    apply runOn_bind_related (R := R) trans (refl _)
    intro again _
    apply runOn_bind_related (R := R) trans looked
    intro stop _
    apply runOn_bind_related (R := R) trans
    · exact runOn_connect_related refl trans attaches (some stop) follow _ none _
    · exact fun _ _ => refl _

end Related

end Construction

end GrammarNet
