import GrammarNet.Proofs.Construction.Labelling
import GrammarNet.Proofs.Lookahead.Evaluation
import GrammarNet.Proofs.RangeSet.Complement

/-!
# Lookahead and matching

A state with one way out, which consumes a symbol, looks ahead to the symbols that the way out accepts. The one
exception are the ways out for none of some symbols: taking a range out of the vocabulary goes wrong if the range holds
the first user symbol together with a neighbour, and then nothing is left.
-/

namespace GrammarNet

/-! ## What arrows offer -/

namespace Construction

/-- The symbols of which none may match hold the first user symbol together with a neighbour of it. -/
def Arrow.Straddles : Arrow → Prop
  | .noneOf symbols =>
      Symbol.firstUser ∈ symbols ∧ (Symbol.firstUser - 1 ∈ symbols ∨ Symbol.firstUser + 1 ∈ symbols)
  | _ => False

theorem straddles_ofList (symbols : List Int) :
    GrammarNet.Straddles (RangeSet.ofList (Label.symbols symbols)).ranges
        Symbol.firstUser ↔ (Arrow.noneOf symbols).Straddles := by
  have members := (RangeSet.kept_ofList (Label.symbols symbols)).2
  unfold GrammarNet.Straddles Arrow.Straddles
  rw [← RangeSet.mem_iff_covers, ← RangeSet.mem_iff_covers, ← RangeSet.mem_iff_covers, members, members, members]
  unfold Label.symbols
  split
  · rename_i none
    subst none
    decide
  · exact Iff.rfl

/-- What a transition that consumes adds to an empty lookahead, by the arrow that drew it. -/
theorem offer_of_arrow
    {arrow : Arrow} {rule : Except Fault Int} {kind : TransitionKind} (drawn : arrow.kind rule = .ok kind)
    (consumes : kind.isEpsilon = false) (greatest : Symbol) :
    ∃ offer, kind.offer greatest = .ok offer ∧ ∀ x, x ∈ RangeSet.empty.union offer ↔
      kind.accepts x Symbol.firstUser greatest = true ∧ ¬ arrow.Straddles := by
  have alone : ∀ {v : Range} {x : Int}, x ∈ RangeSet.empty.union (RangeSet.empty.insertRange v) ↔ x ∈ v := by
    intro v x
    show Covers [v] x ↔ x ∈ v
    simp
  have nothing : ∀ {x : Int}, x ∉ RangeSet.empty.union .empty := fun {x} => RangeSet.not_mem_empty x
  cases arrow with
  | atom symbol =>
      obtain rfl := Except.ok.inj drawn
      refine ⟨_, rfl, fun x => ?_⟩
      have offered : x ∈ RangeSet.empty.union (Label.single symbol).set ↔ x ∈ Range.single symbol := alone
      show _ ↔ (symbol == x) = true ∧ ¬ False
      rw [offered, Range.mem_single, beq_iff_eq, and_iff_left not_false]
      exact eq_comm
  | interval first last =>
      obtain rfl := Except.ok.inj drawn
      refine ⟨_, rfl, fun x => ?_⟩
      have offered : x ∈ RangeSet.empty.union (Label.interval first last).set ↔ x ∈ (⟨first, last + 1⟩ : Range) := alone
      rw [offered, Range.mem_mk, Int.lt_add_one_iff]
      show _ ↔ decide (first ≤ x ∧ x ≤ last) = true ∧ ¬ False
      rw [decide_eq_true_iff, and_iff_left not_false]
  | anyOf symbols =>
      obtain rfl := Except.ok.inj drawn
      obtain ⟨kept, _⟩ := RangeSet.kept_ofList (Label.symbols symbols)
      refine ⟨_, rfl, fun x => ?_⟩
      show _ ↔ decide (x ∈ _) = true ∧ ¬ False
      rw [decide_eq_true_iff, and_iff_left not_false, Label.set_ofSet_ofList,
        RangeSet.ascending_empty.mem_union fun r member => Int.le_of_lt (kept.ranges r member),
        or_iff_right (RangeSet.not_mem_empty x)]
  | noneOf symbols =>
      obtain rfl := Except.ok.inj drawn
      rw [← straddles_ofList]
      simp only [TransitionKind.accepts, TransitionKind.offer, decide_eq_true_eq]
      rw [Label.set_ofSet_ofList]
      obtain ⟨kept, _⟩ := RangeSet.kept_ofList (Label.symbols symbols)
      by_cases small : greatest < Symbol.firstUser
      · refine ⟨.empty, if_pos small, fun x => iff_of_false nothing ?_⟩
        rintro ⟨⟨least, most, _⟩, _⟩
        exact Int.not_le.mpr small (Int.le_trans least most)
      · rw [if_neg small]
        obtain ⟨bound, ascending⟩ := kept.ascending
        obtain ⟨rest, complement, _, members⟩ :=
          RangeSet.complement_of_ascending false (Int.not_lt.mp small) ascending kept.ranges
        rw [← RangeSet.ofList_filled (Label.symbols_ne_nil symbols)] at complement
        exact ⟨rest, complement, members⟩
  | wildcard =>
      obtain rfl := Except.ok.inj drawn
      simp only [TransitionKind.accepts, TransitionKind.offer, decide_eq_true_eq]
      by_cases small : greatest < Symbol.firstUser
      · refine ⟨.empty, if_pos small, fun x => iff_of_false nothing ?_⟩
        rintro ⟨⟨least, most⟩, _⟩
        exact Int.not_le.mpr small (Int.le_trans least most)
      · refine ⟨_, if_neg small, fun x => ?_⟩
        rw [alone, Range.mem_mk, Int.lt_add_one_iff]
        simp [Arrow.Straddles]
  | epsilon | precedence =>
      obtain rfl := Except.ok.inj drawn
      exact Bool.noConfusion consumes
  | predicate | action =>
      cases rule with
      | error fault => contradiction
      | ok owner =>
          obtain rfl := Except.ok.inj drawn
          exact Bool.noConfusion consumes

end Construction

/-! ## One way out -/

namespace Lookahead

open Construction

/-- The search from a state with one way out, which consumes, does two tasks. -/
theorem ends_of_single
    {net : Network} {id : StateId} {t : Transition} {offer : RangeSet}
    (goesOn : (net.state id).isRuleStop = false) (only : (net.state id).transitions = [t])
    (consumes : t.kind.isEpsilon = false) (offered : t.kind.offer net.maxSymbol = .ok offer) :
    Search.Ends net {} (Search.start (some id) .unknown) (.ok (RangeSet.empty.union offer)) 2 := by
  have passable : net.Passable {} ⟨id, .unknown⟩ := by
    rintro (stop | stops)
    · exact nomatch stop
    · simp [goesOn] at stops
  have follows : ∀ config, Search.follow net {} (net.state id) config t = [.consume t.kind] := by
    intro config
    obtain ⟨target, kind⟩ := t
    cases kind <;> first | rfl | exact Bool.noConfusion consumes
  have expanded : Search.expand net {} id ⟨some id, .unknown, []⟩ = .ok [.consume t.kind] := by
    rw [Search.expand_of_passable passable, only, List.flatMap_singleton, follows]
  exact .step rfl (Search.perform_visit_of_not_mem rfl Std.HashSet.not_mem_empty expanded)
    (.step rfl (Search.perform_consume_of_ok offered) (.done rfl))

/-- A state with one way out, drawn by an arrow that consumes, looks ahead to the symbols that its way out accepts, and
to none if the arrow straddles the first user symbol. So the two agree exactly if it does not, or accepts nothing. -/
theorem look_iff_accepts
    (work : Workspace) (id : StateId) (t : Transition) (arrow : Arrow) (rule : Except Fault Int)
    (goesOn : (work.net.state id).isRuleStop = false) (only : (work.net.state id).transitions = [t])
    (drawn : arrow.kind rule = .ok t.kind) (consumes : t.kind.isEpsilon = false) :
    ∃ found, (look (some id) none .unknown).runOn work = (.ok found, work) ∧
      (∀ x, x ∈ found ↔ t.kind.accepts x Symbol.firstUser work.net.maxSymbol = true ∧ ¬ arrow.Straddles) ∧
      ((∀ x, x ∈ found ↔ t.kind.accepts x Symbol.firstUser work.net.maxSymbol = true) ↔
        ¬ (arrow.Straddles ∧ ∃ x, t.kind.accepts x Symbol.firstUser work.net.maxSymbol = true)) := by
  obtain ⟨offer, offered, members⟩ := offer_of_arrow drawn consumes work.net.maxSymbol
  refine ⟨RangeSet.empty.union offer, ?_, members, ?_⟩
  · rw [runOn_look, (ends_of_single goesOn only consumes offered).lookahead_eq]
  · constructor
    · rintro agree ⟨straddles, x, accepted⟩
      exact ((members x).mp ((agree x).mpr accepted)).2 straddles
    · intro apart x
      rw [members x]
      exact and_iff_left_of_imp fun accepted straddles => apart ⟨straddles, x, accepted⟩

/-- One way out for none of the given symbols, in a vocabulary of four. -/
def noneOfFour (symbols : List Symbol) : Network :=
  .ofStates 4 [
    { transitions := [⟨1, .notSet (.ofSet (some { set := .ofList symbols }))⟩] },
    {}]

theorem look_iff_accepts_noneOf_two_four :
    ((noneOfFour [2, 4]).state 0).isRuleStop = false ∧
      ∃ found, (look (some 0) none .unknown).runOn ⟨noneOfFour [2, 4], []⟩ = (.ok found, ⟨noneOfFour [2, 4], []⟩) ∧
        (∀ x, x ∈ found ↔
          (TransitionKind.notSet (.ofSet (some { set := .ofList [2, 4] }))).accepts x Symbol.firstUser 4 = true ∧
            ¬ (Arrow.noneOf [2, 4]).Straddles) ∧
        ((∀ x, x ∈ found ↔
          (TransitionKind.notSet (.ofSet (some { set := .ofList [2, 4] }))).accepts x Symbol.firstUser 4 = true) ↔
            ¬ ((Arrow.noneOf [2, 4]).Straddles ∧ ∃ x,
              (TransitionKind.notSet (.ofSet (some { set := .ofList [2, 4] }))).accepts x Symbol.firstUser 4 = true)) :=
  ⟨rfl, look_iff_accepts ⟨noneOfFour [2, 4], []⟩ 0 ⟨1, .notSet (.ofSet (some { set := .ofList [2, 4] }))⟩
    (.noneOf [2, 4]) (.ok 0) rfl rfl rfl rfl⟩

/-- Of four symbols, the way out for neither the first nor the second accepts the third, which is not looked ahead
to. -/
theorem look_ne_accepts_noneOf_one_two :
    ¬ ∀ (work : Workspace) (id : StateId) (t : Transition) (arrow : Arrow) (rule : Except Fault Int),
      (work.net.state id).isRuleStop = false → (work.net.state id).transitions = [t] →
        arrow.kind rule = .ok t.kind → t.kind.isEpsilon = false →
          ∃ found, (look (some id) none .unknown).runOn work = (.ok found, work) ∧
            ∀ x, x ∈ found ↔ t.kind.accepts x Symbol.firstUser work.net.maxSymbol = true := by
  intro claim
  obtain ⟨found, ok, members⟩ :=
    claim ⟨noneOfFour [1, 2], []⟩ 0 ⟨1, .notSet (.ofSet (some { set := .ofList [1, 2] }))⟩ (.noneOf [1, 2]) (.ok 0)
      rfl rfl rfl rfl
  have offered : (TransitionKind.notSet (.ofSet (some { set := .ofList [1, 2] }))).offer
      (noneOfFour [1, 2]).maxSymbol = .ok ⟨some [⟨1, 1⟩], false⟩ := rfl
  have only : ((noneOfFour [1, 2]).state 0).transitions =
      [⟨1, .notSet (.ofSet (some { set := .ofList [1, 2] }))⟩] := rfl
  rw [runOn_look, (ends_of_single rfl only rfl offered).lookahead_eq] at ok
  obtain rfl := Except.ok.inj (congrArg Prod.fst ok)
  have seen := (members 3).mpr (by decide)
  exact absurd seen (by decide)

end Lookahead

end GrammarNet
