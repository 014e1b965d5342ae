import GrammarNet.Proofs.Construction.Building
import GrammarNet.Proofs.Construction.Numbering

/-!
# Numbers and links that last

Whatever steps are taken, failing ones and the clearing of slots included, the numberings of a network are consistent
after each of them, numbers are never given anew, and the ends of a block stay linked to each other.
-/

namespace GrammarNet

namespace Construction

open NetM

/-! ## Steps that keep the numberings -/

/-- The step registers a decision without a state. It fails, but takes the place. -/
def Step.Stateless : Step → Prop
  | .decision none | .mode none _ => True
  | _ => False

/-- A state is listed only if it never was, and registered as a decision only if it is not. Attributes are not set
directly, and tables are not edited. -/
def Step.Permitted (net : Network) : Step → Prop
  | .list (some id) => id < net.store.size ∧ (net.state id).owned = false
  | .decision (some id) | .mode (some id) _ => id < net.store.size ∧ some id ∉ net.decisions
  | .set .. | .editTable .. => False
  | _ => True

instance (net : Network) : (step : Step) → Decidable (step.Permitted net)
  | .list (some id) => inferInstanceAs (Decidable (id < net.store.size ∧ (net.state id).owned = false))
  | .decision (some id) | .mode (some id) _ =>
      inferInstanceAs (Decidable (id < net.store.size ∧ some id ∉ net.decisions))
  | .set .. | .editTable .. => inferInstanceAs (Decidable False)
  | .list none | .decision none | .mode none _ | .make .. | .add .. | .clear _ | .rule _ | .block .. | .defineMode ..
  | .lexerAction _ | .draw .. | .connect .. | .invoke .. | .verify | .build _ => inferInstanceAs (Decidable True)

section Lasting

variable {net : Network} {work : Workspace}

/-! ## Operations as advances -/

theorem keepsLinks_attributes (kind : StateKind) (later : Attributes) : KeepsLinks kind.attributes later := by
  cases kind <;> exact ⟨nofun, nofun, nofun⟩

/-- A state without links stays what it is when it is linked. -/
theorem still_linked {s : State} (unlinked : ∀ later, KeepsLinks s.attributes later) (link : Option StateId) :
    Still s (s.set (.endState link)) ∧ Still s (s.set (.startState link)) ∧ Still s (s.set (.stopState link)) :=
  ⟨⟨⟨rfl, rfl, unlinked _⟩, rfl, rfl, rfl⟩, ⟨⟨rfl, rfl, unlinked _⟩, rfl, rfl, rfl⟩, ⟨⟨rfl, rfl, unlinked _⟩, rfl, rfl, rfl⟩⟩

theorem advances_grown (net : Network) (kind : StateKind) (rule : Int) : Advances net (net.grown kind rule) := by
  let made : Network := { net with store := net.store.push (.ofKind kind rule) }
  have listed : Advance made
      { made.modify net.store.size (fun s => { s with owned := true, number := made.slots.size }) with
        slots := made.slots.push (some net.store.size) } := by
    apply Advance.listed
    · show net.store.size < (net.store.push _).size
      rw [Array.size_push]
      exact Nat.lt_succ_self _
    · rw [state_made, if_pos rfl]
      rfl
  have same : net.grown kind rule =
      { made.modify net.store.size (fun s => { s with owned := true, number := made.slots.size }) with
        slots := made.slots.push (some net.store.size) } := by
    unfold Network.grown Network.modify
    simp only [made, push_modify_size]
  rw [same]
  exact .tail (.single (.made kind rule)) listed

theorem size_grown_grown (net : Network) (first second : StateKind) (rule : Int) :
    ((net.grown first rule).grown second rule).store.size = net.store.size + 2 := by
  rw [Network.size_grown, Network.size_grown]

/-- A state that was made for two at a time has the attributes of its kind, and no links yet. -/
theorem attributes_grown_grown (net : Network) (first second : StateKind) (rule : Int) :
    (((net.grown first rule).grown second rule).state net.store.size).attributes = first.attributes ∧
      (((net.grown first rule).grown second rule).state (net.store.size + 1)).attributes = second.attributes := by
  have size : (net.grown first rule).store.size = net.store.size + 1 := Network.size_grown
  constructor
  · rw [Network.state_grown_of_lt (size ▸ Nat.lt_succ_self _), Network.state_grown_size]
    rfl
  · rw [← size, Network.state_grown_size]
    rfl

theorem advances_withLimits (net : Network) : Advances net net.withLimits := by
  have made := (advances_grown net .ruleStart net.ruleStarts.size).trans (advances_grown _ .ruleStop net.ruleStarts.size)
  apply made.tail
  apply Advance.stilled
  have links := keepsLinks_attributes .ruleStart
  rw [← (attributes_grown_grown net .ruleStart .ruleStop net.ruleStarts.size).1] at links
  exact (still_linked links _).2.2

theorem advances_withRule (net : Network) (symbol : Symbol) : Advances net (net.withRule symbol) := by
  obtain ⟨starts, stops⟩ := marks_withLimits net
  apply (advances_withLimits net).tail
  apply Advance.registered symbol starts stops
  unfold Network.withLimits
  rw [Network.state_modify_self (size_grown_grown net _ _ _ ▸ Nat.lt_add_of_pos_right Nat.two_pos)]
  rfl

theorem advances_withEnds (net : Network) (rule : Int) (kind : StateKind) : Advances net (net.withEnds rule kind) := by
  have made := (advances_grown net kind rule).trans (advances_grown _ .blockEnd rule)
  obtain ⟨start, stop⟩ := attributes_grown_grown net kind .blockEnd rule
  have opened : Advance ((net.grown kind rule).grown .blockEnd rule)
      (((net.grown kind rule).grown .blockEnd rule).modify net.store.size
        (·.set (.endState (some (net.store.size + 1))))) := by
    apply Advance.stilled
    have links := keepsLinks_attributes kind
    rw [← start] at links
    exact (still_linked links _).1
  apply (made.tail opened).tail
  apply Advance.stilled
  have apart : net.store.size + 1 ≠ net.store.size := Nat.succ_ne_self _
  have links := keepsLinks_attributes .blockEnd
  rw [← stop, ← Network.state_modify_of_ne apart] at links
  exact (still_linked links _).2.1

theorem links_withEnds (net : Network) (rule : Int) (kind : StateKind) :
    ((net.withEnds rule kind).state net.store.size).attributes.endState = some (some (net.store.size + 1)) ∧
      ((net.withEnds rule kind).state (net.store.size + 1)).attributes.startState = some (some net.store.size) := by
  have size := size_grown_grown net kind .blockEnd rule
  unfold Network.withEnds
  constructor
  · rw [Network.state_modify_of_ne (Nat.succ_ne_self _).symm,
      Network.state_modify_self (size ▸ Nat.lt_add_of_pos_right Nat.two_pos)]
    rfl
  · rw [Network.state_modify_self (by rw [Network.size_modify, size]; exact Nat.lt_succ_self _)]
    rfl

theorem advances_block (consistent : Consistent work.net) (owner : Int) (kind : StateKind) :
    Advances work.net ((block owner kind).runOn work).2.net := by
  rw [runOn_block]
  apply (advances_withEnds work.net owner kind).tail
  apply Advance.decided
  · unfold Network.withEnds
    rw [Network.size_modify, Network.size_modify, size_grown_grown]
    exact Nat.lt_add_of_pos_right Nat.two_pos
  · intro member
    obtain ⟨place, entry⟩ := Array.mem_iff_getElem?.mp member
    exact Nat.lt_irrefl _ (consistent.tables.decisions place _ entry).1

theorem advances_decision {id : StateId} (made : id < work.net.store.size) (fresh : some id ∉ work.net.decisions) :
    Advances work.net ((decision (some id)).runOn work).2.net := by
  rw [runOn_decision]
  exact .single (.decided made fresh)

theorem advances_defineMode (state : Option StateId) (name : Option String) :
    Advances work.net ((defineMode state name).runOn work).2.net := by
  obtain ⟨names, defined⟩ := runOn_defineMode state name work
  rw [defined]
  exact .single (.noted (work.net.modes.push state) names work.net.actions)

/-! ## Transitions as advances -/

theorem advances_attach (source : Option StateId) (t : Transition) (position : Option Int) :
    Advances work.net ((attach source t position).runOn work).2.net := by
  cases source with
  | none => exact .refl
  | some id =>
      have added : Advance work.net (work.net.modify id (·.addTransition t position)) :=
        .stilled id _ ⟨⟨rfl, rfl, .refl _⟩, rfl, rfl, rfl⟩
      have prepared : Advance work.net (work.net.modify id (·.prepare t)) :=
        .stilled id _ ⟨⟨rfl, rfl, .refl _⟩, rfl, rfl, rfl⟩
      rw [net_runOn_attach]
      by_cases proper : position.all addressable = true
      · rw [if_pos proper]
        exact .single added
      · rw [if_neg proper]
        exact .single prepared

theorem advances_connect
    (source target : Option StateId) (kind : TransitionKind) (position : Option Int) :
    Advances work.net ((connect source target kind position).runOn work).2.net :=
  runOn_connect_related (fun _ => .refl) Relation.ReflTransGen.trans (fun _ => advances_attach) source target kind position
    work

theorem advances_draw (source target : Option StateId) (arrow : Arrow) :
    Advances work.net ((draw source target arrow).runOn work).2.net :=
  runOn_draw_related (fun _ => .refl) Relation.ReflTransGen.trans (fun _ => advances_attach) source target arrow work

theorem advances_invoke (source : Option StateId) (rule : Int) (follow : Option StateId) (precedence : Int) :
    Advances work.net ((invoke source rule follow precedence).runOn work).2.net :=
  runOn_invoke_related (fun _ => .refl) Relation.ReflTransGen.trans (fun _ => advances_attach) source rule follow precedence
    work

/-! ## Steps -/

theorem advances_list {state : Option StateId} (permitted : (Step.list state).Permitted work.net) :
    Advances work.net ((list state).runOn work).2.net := by
  cases state with
  | none => exact .single .reserved
  | some id =>
      simp only [list, runOn_bind, runOn_network, runOn_change]
      exact .single (.listed permitted.1 permitted.2)

theorem advances_clear (slot : Int) : Advances work.net ((clear slot).runOn work).2.net := by
  simp only [clear, runOn_bind, runOn_network]
  cases position? work.net.slots.size slot with
  | none => exact .refl
  | some place => exact .single (.cleared place)

theorem advances_step
    {step : Step} (consistent : Consistent work.net) (permitted : step.Permitted work.net)
    (stateful : ¬ step.Stateless) : Advances work.net (step.after work).net := by
  have settled : ∀ {α : Type} {action : NetM α} {f : α → Outcome}, Advances work.net (action.runOn work).2.net →
      Advances work.net ((action >>= fun a => pure (f a)).runOn work).2.net := by
    intro α action f advances
    rw [runOn_bind_pure]
    exact advances
  unfold Step.after
  cases step with
  | make kind owner => exact settled (.single (.made kind owner))
  | add kind owner => exact settled (by rw [runOn_add]; exact advances_grown work.net kind owner)
  | list state =>
      apply runOn_bind_related (R := Advances) Relation.ReflTransGen.trans (advances_list permitted)
      exact fun _ _ => .refl
  | clear slot => exact settled (advances_clear slot)
  | rule symbol => exact settled (by rw [(runOn_rule symbol work).2]; exact advances_withRule work.net symbol)
  | block owner kind => exact settled (advances_block consistent owner kind)
  | decision state =>
      cases state with
      | none => exact absurd trivial stateful
      | some id => exact settled (advances_decision permitted.1 permitted.2)
  | mode state name =>
      cases state with
      | none => exact absurd trivial stateful
      | some id =>
          apply settled
          apply runOn_bind_related (R := Advances) Relation.ReflTransGen.trans
          · exact advances_decision permitted.1 permitted.2
          · exact fun _ _ => advances_defineMode (some id) name
  | defineMode state name => exact settled (advances_defineMode state name)
  | lexerAction action =>
      exact .single (.noted work.net.modes work.net.modeNames (work.net.actions.push action))
  | draw source target arrow => exact settled (advances_draw source target arrow)
  | connect source target kind position => exact settled (advances_connect source target kind position)
  | invoke source callee follow precedence => exact settled (advances_invoke source callee follow precedence)
  | verify =>
      apply runOn_bind_related (R := Advances) Relation.ReflTransGen.trans .refl
      intro net _
      rw [runOn_bind_pure, runOn_lift]
  | build verified => exact settled (by rw [net_runOn_build])
  | set | editTable => exact permitted.elim

theorem net_after_of_stateless {step : Step} (stateless : step.Stateless) (work : Workspace) :
    (step.after work).net = { work.net with decisions := work.net.decisions.push none } := by
  unfold Step.after
  cases step with
  | decision state =>
      cases state with
      | none =>
          rw [Step.run, runOn_bind_pure, runOn_decision_none]
      | some id => exact stateless.elim
  | mode state name =>
      cases state with
      | none =>
          rw [Step.run, runOn_bind_pure, mode, runOn_bind, runOn_decision_none]
      | some id => exact stateless.elim
  | make | add | list | clear | set | rule | block | defineMode | lexerAction | draw | connect | invoke | editTable | verify
  | build => exact stateless.elim

/-- A place without a state is no state's place. -/
theorem Consistent.vacant (consistent : Consistent net) :
    Consistent { net with decisions := net.decisions.push none } where
  states := consistent.states.same rfl (Nat.le_refl _) (fun _ => rfl) fun _ => rfl
  tables :=
    { stops := consistent.tables.stops
      symbols := consistent.tables.symbols
      rules := consistent.tables.rules_of_steady rfl rfl (Nat.le_refl _) fun _ _ => .refl _
      decisions := by
        intro place id entry
        have pushed : (net.decisions.push none)[place]? = some (some id) := entry
        rcases entry_of_push pushed with ⟨_, filled⟩ | old
        · contradiction
        · exact consistent.tables.decisions place id old }

theorem Consistent.step {step : Step} (consistent : Consistent work.net) (permitted : step.Permitted work.net) :
    Consistent (step.after work).net ∧ ∀ id, Settled (work.net.state id) ((step.after work).net.state id) := by
  by_cases stateless : step.Stateless
  · rw [net_after_of_stateless stateless]
    exact ⟨consistent.vacant, fun id => .refl _⟩
  · exact consistent.advances (advances_step consistent permitted stateless)

/-! ## Runs -/

theorem Consistent.runAll
    {steps : List Step} (consistent : Consistent work.net) (permitted : Throughout Step.Permitted steps work) :
    Consistent (runAll steps work).net ∧
      ∀ id, Settled (work.net.state id) ((Construction.runAll steps work).net.state id) := by
  induction steps generalizing work with
  | nil => exact ⟨consistent, fun id => .refl _⟩
  | cons step rest inductionHypothesis =>
      have first := consistent.step permitted.1
      have later := inductionHypothesis first.1 permitted.2
      exact ⟨later.1, fun id => (first.2 id).trans (later.2 id)⟩

theorem none_not_mem_runAll
    {steps : List Step} (consistent : Consistent work.net) (permitted : Throughout Step.Permitted steps work)
    (stateful : ∀ step ∈ steps, ¬ step.Stateless) (filled : none ∉ work.net.decisions) :
    none ∉ (runAll steps work).net.decisions := by
  induction steps generalizing work with
  | nil => exact filled
  | cons step rest inductionHypothesis =>
      have advances := advances_step consistent permitted.1 (stateful step List.mem_cons_self)
      apply inductionHypothesis (consistent.step permitted.1).1 permitted.2
      · exact fun step member => stateful step (List.mem_cons_of_mem _ member)
      · exact fun member => filled (advances.none_mem member)

theorem consistent_initial (kind : NetworkKind) (maxSymbol : Symbol) (keepRuleSymbols : Bool) :
    Consistent (.initial kind maxSymbol keepRuleSymbols) := by
  have vacant : ∀ id, (Network.initial kind maxSymbol keepRuleSymbols).state id = default := fun _ => rfl
  refine ⟨⟨nofun, ?_, ?_, ?_⟩, ⟨rfl, ?_, nofun, nofun⟩⟩
  · intro id owned
    rw [vacant] at owned
    contradiction
  · intro id _
    rw [vacant]
    rfl
  · intro id other numbered
    rw [vacant] at numbered
    contradiction
  · intro symbols found
    have opened : (if kind = .lexer ∨ keepRuleSymbols = true then some #[] else none) = some symbols := found
    by_cases kept : kind = .lexer ∨ keepRuleSymbols = true
    · rw [if_pos kept] at opened
      injection opened with opened
      rw [← opened]
      rfl
    · rw [if_neg kept] at opened
      contradiction

theorem linked_block (owner : Int) (kind : StateKind) (work : Workspace) :
    ∃ start stop, ((Step.block owner kind).run.runOn work).1 = .ok (.states start stop) ∧
      (((Step.block owner kind).after work).net.state start).attributes.endState = some (some stop) ∧
      (((Step.block owner kind).after work).net.state stop).attributes.startState = some (some start) := by
  have ran : (Step.block owner kind).run.runOn work =
      (.ok (.states work.net.store.size (work.net.store.size + 1)),
        { work with net := (work.net.withEnds owner kind).withDecision work.net.store.size }) := by
    rw [Step.run, runOn_bind_pure, runOn_block]
    rfl
  have after : ((Step.block owner kind).after work).net =
      (work.net.withEnds owner kind).withDecision work.net.store.size := by
    rw [Step.after, ran]
  obtain ⟨opens, closes⟩ := links_withEnds work.net owner kind
  have kept := fun id => (steady_withDecision (work.net.withEnds owner kind) work.net.store.size id).1.links
  rw [after, ran]
  refine ⟨work.net.store.size, work.net.store.size + 1, rfl, ?_, ?_⟩
  · exact (kept work.net.store.size).endState _ opens
  · exact (kept (work.net.store.size + 1)).startState _ closes

/-- The start and the end of a block are linked to each other as soon as it is made, and for good. -/
theorem Consistent.linked_block
    {owner : Int} {kind : StateKind} {rest : List Step} (consistent : Consistent work.net)
    (permitted : Throughout Step.Permitted (.block owner kind :: rest) work) :
    ∃ start stop, ((Step.block owner kind).run.runOn work).1 = .ok (.states start stop) ∧
      ((Construction.runAll (.block owner kind :: rest) work).net.state start).attributes.endState = some (some stop) ∧
      ((Construction.runAll (.block owner kind :: rest) work).net.state stop).attributes.startState =
        some (some start) := by
  obtain ⟨start, stop, yields, opens, closes⟩ := Construction.linked_block owner kind work
  have made := (consistent.step permitted.1).1
  have unrolled : Construction.runAll (.block owner kind :: rest) work =
      Construction.runAll rest ((Step.block owner kind).after work) := List.foldl_cons
  have kept := fun id => ((made.runAll permitted.2).2 id).links
  rw [unrolled]
  exact ⟨start, stop, yields, (kept start).endState stop opens, (kept stop).startState start closes⟩

end Lasting

/-! ## What any construction keeps -/

/-- After any permitted steps, a slot holds nothing or a state with its number, and no number is given to two states; the
tables of rules go together, and list what they should; and a decision is stamped with its place, where each place
has a state unless one was registered without. A number that a state has is never changed by later steps, and the start
and the end that a block yields are linked to each other for good. -/
theorem construction_consistent
    (kind : NetworkKind) (maxSymbol : Symbol) (keepRuleSymbols : Bool) (steps : List Step)
    (permitted : Throughout Step.Permitted steps (begun kind maxSymbol keepRuleSymbols)) :
    let last := runAll steps (begun kind maxSymbol keepRuleSymbols)
    Consistent last.net ∧
    ((∀ step ∈ steps, ¬ step.Stateless) → none ∉ last.net.decisions) ∧
    ∀ before later, steps = before ++ later →
      let work := runAll before (begun kind maxSymbol keepRuleSymbols)
      (∀ id, 0 ≤ (work.net.state id).number → (last.net.state id).number = (work.net.state id).number) ∧
      ∀ owner blockKind rest, later = .block owner blockKind :: rest →
        ∃ start stop, ((Step.block owner blockKind).run.runOn work).1 = .ok (.states start stop) ∧
          (last.net.state start).attributes.endState = some (some stop) ∧
          (last.net.state stop).attributes.startState = some (some start) := by
  have opened : Consistent (begun kind maxSymbol keepRuleSymbols).net := consistent_initial kind maxSymbol keepRuleSymbols
  have filled : none ∉ (begun kind maxSymbol keepRuleSymbols).net.decisions := nofun
  intro last
  refine ⟨(opened.runAll permitted).1, fun stateful => none_not_mem_runAll opened permitted stateful filled, ?_⟩
  rintro before later rfl work
  obtain ⟨permittedBefore, permittedLater⟩ := throughout_append.mp permitted
  have consistent := (opened.runAll permittedBefore).1
  have continued : last = runAll later work := runAll_append before later _
  rw [continued]
  refine ⟨fun id => ((consistent.runAll permittedLater).2 id).number, ?_⟩
  rintro owner blockKind rest rfl
  exact consistent.linked_block permittedLater

/-- A state that was made apart is listed, and its slot is cleared from the back. There is nothing to clear in slot 7, and
no rule 4 to invoke. -/
def clearingSteps : List Step :=
  [.rule 0, .make .basic 0, .list (some 2), .clear (-1), .clear 7, .invoke (some 2) 4 (some 0) 0, .decision (some 2)]

/-- A block is made, and its start is cleared, too. -/
def blockSteps : List Step :=
  [.block 0 .plusBlockStart, .clear 3, .list none, .add .basic 0, .mode (some 5) none, .draw (some 3) none (.atom 1)]

theorem construction_consistent_cleared :
    Throughout Step.Permitted (clearingSteps ++ blockSteps) (begun .lexer 9 false) ∧
      (runAll (clearingSteps ++ blockSteps) (begun .lexer 9 false)).net.slots =
        #[some 0, some 1, none, none, some 4, none, some 5] ∧
      ((runAll (clearingSteps ++ blockSteps) (begun .lexer 9 false)).net.state 2).number = 2 ∧
      none ∉ (runAll (clearingSteps ++ blockSteps) (begun .lexer 9 false)).net.decisions := by
  have permitted : Throughout Step.Permitted (clearingSteps ++ blockSteps) (begun .lexer 9 false) := by decide +kernel
  have slots : (runAll (clearingSteps ++ blockSteps) (begun .lexer 9 false)).net.slots =
      #[some 0, some 1, none, none, some 4, none, some 5] := by decide +kernel
  have numbered : ((runAll clearingSteps (begun .lexer 9 false)).net.state 2).number = 2 := by decide +kernel
  have stateful : ∀ step ∈ clearingSteps ++ blockSteps, ¬ step.Stateless := by
    simp [clearingSteps, blockSteps, Step.Stateless]
  obtain ⟨_, filled, lasting⟩ := construction_consistent .lexer 9 false (clearingSteps ++ blockSteps) permitted
  have kept := (lasting clearingSteps blockSteps rfl).1 2
  rw [numbered] at kept
  exact ⟨permitted, slots, kept (by decide), filled stateful⟩

end Construction

end GrammarNet
