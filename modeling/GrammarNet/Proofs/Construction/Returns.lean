import GrammarNet.Proofs.Construction.Verified

/-!
# Where invoked rules return to

If a builder draws the invocations of rules itself, each of them enters a rule at its start, and the stop of that rule
has a transition to the state where the invoking rule goes on. No later step takes any of this back.
-/

namespace GrammarNet

namespace Construction

/-- Whatever invokes a rule enters it at its start, and the stop of the rule leads to where the invoking rule goes on. -/
def Returning (net : Network) : Prop :=
  ∀ id, ∀ t ∈ (net.state id).transitions, t.isRule = true → ∃ rule stop, net.Delimits rule t.target stop ∧
    ∀ next ∈ t.kind.follow?, ∃ outermost, ⟨next, .epsilon outermost⟩ ∈ (net.state stop).transitions

section Returning

variable {direct : Bool} {net later : Network} {id other : StateId} {t u : Transition}

/-! ## What the changes add -/

theorem mem_of_mem_addTransition
    (member : u ∈ ((net.modify id (·.addTransition t none)).state other).transitions) :
    u ∈ (net.state other).transitions ∨ u = t := by
  rcases net.state_modify id other (·.addTransition t none) with kept | ⟨_, changed⟩
  · rw [kept] at member
    exact Or.inl member
  · rw [changed] at member
    rcases List.mem_append.mp member with old | new
    · exact Or.inl old
    · exact Or.inr (List.mem_singleton.mp new)

theorem mem_addTransition_of_mem (member : u ∈ (net.state other).transitions) :
    u ∈ ((net.modify id (·.addTransition t none)).state other).transitions := by
  rcases net.state_modify id other (·.addTransition t none) with kept | ⟨_, changed⟩
  · rw [kept]
    exact member
  · rw [changed]
    exact List.mem_append_left [t] member

theorem mem_addTransition_self (made : id < net.store.size) :
    t ∈ ((net.modify id (·.addTransition t none)).state id).transitions := by
  rw [Network.state_modify_self made]
  exact List.mem_append_right _ (List.mem_singleton.mpr rfl)

/-- No change takes a transition away. -/
theorem Change.mem_transitions (change : Change direct net later) (member : u ∈ (net.state other).transitions) :
    u ∈ (later.state other).transitions := by
  cases change with
  | grown kind rule =>
      rcases state_grown_cases net kind rule other with ⟨_, old⟩ | ⟨rfl, _⟩
      · rw [old]
        exact member
      · rw [Network.state_of_size_le (Nat.le_refl _)] at member
        exact absurd member List.not_mem_nil
  | adorned id f keeps =>
      rcases net.state_modify id other fun s => { s with attributes := f s.attributes } with kept | ⟨_, changed⟩
      · rw [kept]
        exact member
      · rw [changed]
        exact member
  | noted | registered => exact member
  | attached | stranded => exact mem_addTransition_of_mem member
  | invoked => exact mem_addTransition_of_mem (mem_addTransition_of_mem member)

/-- No change takes the start or the stop of a rule away. -/
theorem Change.delimits
    {rule : Nat} {start stop : StateId} (change : Change direct net later) (delimits : net.Delimits rule start stop) :
    later.Delimits rule start stop := by
  have kept : ∀ {table : Array (Option StateId)} {entry added : Option StateId}, table[rule]? = some entry →
      (table.push added)[rule]? = some entry := by
    intro table entry added found
    obtain ⟨small, _⟩ := Array.getElem?_eq_some_iff.mp found
    rw [Array.getElem?_push_lt small, ← Array.getElem?_eq_getElem small, found]
  cases change with
  | registered => exact ⟨kept delimits.start, kept delimits.stop⟩
  | grown | adorned | noted | attached | invoked | stranded => exact ⟨delimits.start, delimits.stop⟩

/-- The rule transitions that a change adds, unless they may be added directly, come with a return or go on nowhere. -/
theorem Change.returns
    (change : Change false net later) (assembled : Assembled net) (member : u ∈ (later.state other).transitions)
    (invokes : u.isRule = true) :
    u ∈ (net.state other).transitions ∨ ∃ rule stop, later.Delimits rule u.target stop ∧
      ∀ next ∈ u.kind.follow?, ∃ outermost, ⟨next, .epsilon outermost⟩ ∈ (later.state stop).transitions := by
  cases change with
  | grown kind rule =>
      rcases state_grown_cases net kind rule other with ⟨_, old⟩ | ⟨_, new⟩
      · rw [old] at member
        exact Or.inl member
      · rw [new] at member
        exact absurd member List.not_mem_nil
  | adorned id f keeps =>
      rcases net.state_modify id other fun s => { s with attributes := f s.attributes } with kept | ⟨_, changed⟩
      · rw [kept] at member
        exact Or.inl member
      · rw [changed] at member
        exact Or.inl member
  | noted | registered => exact Or.inl member
  | attached _ _ allowed =>
      rcases mem_of_mem_addTransition member with old | rfl
      · exact Or.inl old
      · exact Bool.noConfusion (allowed invokes)
  | @stranded id start stop rule index precedence _ callee =>
      rcases mem_of_mem_addTransition member with old | rfl
      · exact Or.inl old
      · exact Or.inr ⟨rule, stop, ⟨callee.start, callee.stop⟩, fun next absent => nomatch absent⟩
  | @invoked id start stop next rule index precedence outermost _ _ callee =>
      rcases mem_of_mem_addTransition member with earlier | rfl
      · rcases mem_of_mem_addTransition earlier with old | rfl
        · exact Or.inl old
        · refine Or.inr ⟨rule, stop, ⟨callee.start, callee.stop⟩, fun goal follow => ⟨outermost, ?_⟩⟩
          obtain rfl := Option.some.inj follow
          apply mem_addTransition_self
          rw [Network.size_modify]
          exact (assembled.delimits callee).2.made
      · exact Bool.noConfusion invokes

/-! ## Returns stay -/

theorem Returning.change (returning : Returning net) (assembled : Assembled net) (change : Change false net later) :
    Returning later := by
  intro other u member invokes
  rcases change.returns assembled member invokes with old | new
  · obtain ⟨rule, stop, delimits, returns⟩ := returning other u old invokes
    refine ⟨rule, stop, change.delimits delimits, fun next follow => ?_⟩
    obtain ⟨outermost, edge⟩ := returns next follow
    exact ⟨outermost, change.mem_transitions edge⟩
  · exact new

theorem Returning.changes
    (returning : Returning net) (assembled : Assembled net) (changes : Changes false net later) : Returning later := by
  -- That a stop was made before an edge is drawn from it is only known of assembled networks.
  have both : Assembled later ∧ Returning later := by
    induction changes with
    | refl => exact ⟨assembled, returning⟩
    | tail _ change inductionHypothesis =>
        obtain ⟨assembled, returning⟩ := inductionHypothesis
        exact ⟨assembled.change change, returning.change assembled change⟩
  exact both.2

/-- A builder that draws all invocations itself never misses a return. -/
theorem returning_runAll
    {kind : NetworkKind} {maxSymbol : Symbol} {keepRuleSymbols : Bool} {steps : List Step}
    (offered : AllOffered false steps (begun kind maxSymbol keepRuleSymbols)) :
    Returning (runAll steps (begun kind maxSymbol keepRuleSymbols)).net := by
  have opened : Assembled (begun kind maxSymbol keepRuleSymbols).net := assembled_initial kind maxSymbol keepRuleSymbols
  have returning : Returning (begun kind maxSymbol keepRuleSymbols).net := fun id t member =>
    absurd member List.not_mem_nil
  exact returning.changes opened (changes_runAll opened offered)

theorem Finished.returning {work : Workspace} (finished : Finished false work) : Returning work.net := by
  obtain ⟨kind, maxSymbol, keepRuleSymbols, steps, offered, _⟩ := finished
  rw [net_runOn_build]
  exact returning_runAll offered

end Returning

end Construction

end GrammarNet
