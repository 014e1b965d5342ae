import GrammarNet.Proofs.Lookahead.Expected
import GrammarNet.Proofs.Lookahead.Levels
import GrammarNet.Proofs.Search.Offers

/-!
# Expected symbols, level by level

The symbols that are expected are those of the levels up to the first that cannot end, or up to the last. Links beyond it
are not looked at; that the chain is used up is. No shape of the network is assumed, and what is kept with its states may
have been found before it changed.
-/

namespace GrammarNet

namespace Network

/-- What is kept with the states is in order, and has ranges as `P` says. -/
def Keeps (P : Range → Prop) (net : Network) : Prop :=
  ∀ id known, (net.state id).withinRule = some known → known.Kept P

section Keeps

variable {P : Range → Prop} {net : Network}

theorem Truthful.keeps (truthful : net.Truthful) (admits : Admits P) (offers : net.Offers P) : net.Keeps P := by
  intro id known kept
  obtain ⟨found, ok, rfl⟩ := truthful id known kept
  exact (offers.kept admits ok).freeze

/-- Answering a query leaves it so. -/
theorem Keeps.runOn {work : Workspace} (keeps : work.net.Keeps P) (admits : Admits P) (offers : work.net.Offers P)
    (query : Lookahead.Query) : (query.ask.runOn work).2.net.Keeps P := by
  intro id known kept
  rcases (Lookahead.fills_runOn work query).kept id with unchanged | ⟨_, found, ok, filled⟩
  · exact keeps id known (unchanged.symm.trans kept)
  · obtain rfl := Option.some.inj (kept.symm.trans filled)
    exact (offers.kept admits ok).freeze

end Keeps

end Network

namespace Lookahead

open NetM

/-! ## The last level -/

/-- The level can be computed, and its rule can end. -/
def LevelEnds (levels : List (Except Fault RangeSet)) (i : Nat) : Prop :=
  ∃ following, levels[i]? = some (.ok following) ∧ Symbol.epsilon ∈ following

/-- The first level that cannot be computed or cannot end, or the last one if there is no such level. -/
structure LastLevel (levels : List (Except Fault RangeSet)) (k : Nat) : Prop where
  before : ∀ i < k, LevelEnds levels i
  inside : k < levels.length
  stops : LevelEnds levels k → k + 1 = levels.length

/-- A level up to the given one has the symbol, which is not the epsilon mark. -/
def ShownUpTo (levels : List (Except Fault RangeSet)) (k : Nat) (x : Symbol) : Prop :=
  ∃ i ≤ k, ∃ following, levels[i]? = some (.ok following) ∧ x ∈ following ∧ x ≠ Symbol.epsilon

section LastLevel

variable {level : Except Fault RangeSet} {outer : List (Except Fault RangeSet)} {k : Nat} {x : Symbol}

theorem levelEnds_zero : LevelEnds (level :: outer) 0 ↔ ∃ following, level = .ok following ∧ Symbol.epsilon ∈ following := by
  simp only [LevelEnds, List.getElem?_cons_zero, Option.some.injEq]

theorem levelEnds_succ : LevelEnds (level :: outer) (k + 1) ↔ LevelEnds outer k := by
  simp only [LevelEnds, List.getElem?_cons_succ]

theorem lastLevel_zero : LastLevel (level :: outer) 0 ↔ (LevelEnds (level :: outer) 0 → outer = []) := by
  constructor
  · intro last ends
    exact List.length_eq_zero_iff.mp (Nat.succ.inj (last.stops ends)).symm
  · intro stops
    exact ⟨fun i less => absurd less (Nat.not_lt_zero i), Nat.succ_pos _, fun ends => by rw [stops ends]; rfl⟩

theorem lastLevel_succ : LastLevel (level :: outer) (k + 1) ↔ LevelEnds (level :: outer) 0 ∧ LastLevel outer k := by
  constructor
  · intro last
    refine ⟨last.before 0 (Nat.succ_pos k), fun i less => ?_, Nat.lt_of_succ_lt_succ last.inside, fun ends => ?_⟩
    · exact levelEnds_succ.mp (last.before (i + 1) (Nat.succ_lt_succ less))
    · exact Nat.succ.inj (last.stops (levelEnds_succ.mpr ends))
  · rintro ⟨ends, last⟩
    refine ⟨fun i less => ?_, Nat.succ_lt_succ last.inside, fun ends => ?_⟩
    · cases i with
      | zero => exact ends
      | succ i => exact levelEnds_succ.mpr (last.before i (Nat.lt_of_succ_lt_succ less))
    · exact congrArg Nat.succ (last.stops (levelEnds_succ.mp ends))

theorem LastLevel.unique {levels : List (Except Fault RangeSet)} {j : Nat} (last : LastLevel levels k)
    (also : LastLevel levels j) : k = j := by
  have first : ∀ {i j}, LastLevel levels i → LastLevel levels j → j ≤ i := by
    intro i j last also
    by_contra beyond
    have used := last.stops (also.before i (Nat.lt_of_not_le beyond))
    have inside := also.inside
    omega
  exact Nat.le_antisymm (first also last) (first last also)

theorem exists_lastLevel (level : Except Fault RangeSet) (outer : List (Except Fault RangeSet)) :
    ∃ k, LastLevel (level :: outer) k := by
  induction outer generalizing level with
  | nil => exact ⟨0, lastLevel_zero.mpr fun _ => rfl⟩
  | cons next outer inductionHypothesis =>
      by_cases ends : LevelEnds (level :: next :: outer) 0
      · obtain ⟨k, last⟩ := inductionHypothesis next
        exact ⟨k + 1, lastLevel_succ.mpr ⟨ends, last⟩⟩
      · exact ⟨0, lastLevel_zero.mpr fun also => absurd also ends⟩

theorem shownUpTo_zero :
    ShownUpTo (level :: outer) 0 x ↔ ∃ following, level = .ok following ∧ x ∈ following ∧ x ≠ Symbol.epsilon := by
  simp only [ShownUpTo, Nat.le_zero, exists_eq_left, List.getElem?_cons_zero, Option.some.injEq]

theorem shownUpTo_zero_ok {following : RangeSet} :
    ShownUpTo (.ok following :: outer) 0 x ↔ x ∈ following ∧ x ≠ Symbol.epsilon := by
  simp [shownUpTo_zero]

theorem shownUpTo_succ :
    ShownUpTo (level :: outer) (k + 1) x ↔ ShownUpTo (level :: outer) 0 x ∨ ShownUpTo outer k x := by
  constructor
  · rintro ⟨i, most, shown⟩
    cases i with
    | zero => exact Or.inl ⟨0, Nat.le_refl 0, shown⟩
    | succ i => exact Or.inr ⟨i, Nat.le_of_succ_le_succ most, shown⟩
  · rintro (⟨i, most, shown⟩ | ⟨i, most, shown⟩)
    · exact ⟨i, Nat.le_trans most (Nat.zero_le _), shown⟩
    · exact ⟨i + 1, Nat.succ_le_succ most, shown⟩

end LastLevel

/-! ## What is gathered -/

section Gather

variable {levels others outer : List (Except Fault RangeSet)} {level : Except Fault RangeSet} {found : RangeSet} {k : Nat}

/-- A level that ends adds its symbols but for the epsilon mark, and the next level is looked at. -/
theorem gather_of_ends {following : RangeSet} (canEnd : Symbol.epsilon ∈ following) :
    gather (.ok following :: outer) found = gather outer ((found.union following).erase Symbol.epsilon) := if_pos canEnd

/-- No level is looked at after one that does not end. -/
theorem gather_of_not_ends (goesOn : ¬ LevelEnds (level :: outer) 0) :
    gather (level :: outer) found =
      level.map fun following => (found.union following).erase Symbol.epsilon := by
  cases level with
  | error fault => rfl
  | ok following => exact if_neg fun canEnd => goesOn (levelEnds_zero.mpr ⟨following, rfl, canEnd⟩)

theorem gatherFrom_of_ends (ends : LevelEnds (level :: outer) 0) :
    gatherFrom level outer = gather (level :: outer) .empty := by
  obtain ⟨following, rfl, canEnd⟩ := levelEnds_zero.mp ends
  exact (if_pos canEnd).trans (gather_of_ends canEnd).symm

theorem gatherFrom_of_not_ends (goesOn : ¬ LevelEnds (level :: outer) 0) : gatherFrom level outer = level := by
  cases level with
  | error fault => rfl
  | ok following => exact if_neg fun canEnd => goesOn (levelEnds_zero.mpr ⟨following, rfl, canEnd⟩)

/-- If the last level cannot be computed, this is the fault. -/
theorem LastLevel.gather_error
    (last : LastLevel levels k) {fault : Fault} (failed : levels[k]? = some (.error fault)) :
    gather levels found = .error fault := by
  induction levels generalizing k found with
  | nil => contradiction
  | cons level outer inductionHypothesis =>
      cases k with
      | zero =>
          obtain rfl := Option.some.inj failed
          rfl
      | succ k =>
          obtain ⟨ends, beyond⟩ := lastLevel_succ.mp last
          obtain ⟨following, rfl, canEnd⟩ := levelEnds_zero.mp ends
          rw [gather_of_ends canEnd]
          exact inductionHypothesis beyond failed

/-- Otherwise, the levels up to the last are joined, and the input may end after a last level that ends. -/
theorem LastLevel.gather_ok
    (last : LastLevel levels k) (marked : ∀ following, .ok following ∈ levels → following.Kept Range.Marked)
    (kept : found.Kept Range.OfInput) {final : RangeSet} (computed : levels[k]? = some (.ok final)) :
    ∃ result, gather levels found = .ok result ∧
      ∀ x, x ∈ result ↔
        x ∈ found ∨ ShownUpTo levels k x ∨ (x = Symbol.endOfInput ∧ Symbol.epsilon ∈ final) := by
  induction levels generalizing k found with
  | nil => contradiction
  | cons level outer inductionHypothesis =>
      cases k with
      | zero =>
          obtain rfl := Option.some.inj computed
          obtain ⟨stays, members⟩ := kept.union_erase (marked final List.mem_cons_self)
          by_cases canEnd : Symbol.epsilon ∈ final
          · obtain rfl := lastLevel_zero.mp last (levelEnds_zero.mpr ⟨final, rfl, canEnd⟩)
            refine ⟨_, gather_of_ends canEnd, fun x => ?_⟩
            rw [stays.ascending.mem_insert, members x, shownUpTo_zero_ok, or_comm, and_iff_left canEnd, or_assoc]
          · refine ⟨_, if_neg canEnd, fun x => ?_⟩
            rw [members x, shownUpTo_zero_ok, or_iff_left (a := x ∈ final ∧ x ≠ Symbol.epsilon) fun ends => canEnd ends.2]
      | succ k =>
          obtain ⟨ends, beyond⟩ := lastLevel_succ.mp last
          obtain ⟨following, rfl, canEnd⟩ := levelEnds_zero.mp ends
          obtain ⟨stays, members⟩ := kept.union_erase (marked following List.mem_cons_self)
          obtain ⟨result, ok, gathered⟩ := inductionHypothesis beyond
            (fun other member => marked other (List.mem_cons_of_mem _ member)) stays computed
          refine ⟨result, (gather_of_ends canEnd).trans ok, fun x => ?_⟩
          rw [gathered x, members x, shownUpTo_succ, shownUpTo_zero_ok, or_assoc, or_assoc]

/-- What is gathered does not depend on levels after one that does not end. -/
theorem gather_eq_of_take
    (before : ∀ i < k, LevelEnds levels i) (goesOn : ¬ LevelEnds levels k) (inside : k < levels.length)
    (agree : others.take (k + 1) = levels.take (k + 1)) : gather others found = gather levels found := by
  induction levels generalizing others k found with
  | nil => contradiction
  | cons level outer inductionHypothesis =>
      cases others with
      | nil => contradiction
      | cons other further =>
          rw [List.take_succ_cons, List.take_succ_cons] at agree
          obtain ⟨rfl, same⟩ := List.cons.inj agree
          cases k with
          | zero =>
              have alsoGoesOn : ¬ LevelEnds (other :: further) 0 := fun ends =>
                goesOn (levelEnds_zero.mpr (levelEnds_zero.mp ends))
              rw [gather_of_not_ends goesOn, gather_of_not_ends alsoGoesOn]
          | succ k =>
              obtain ⟨following, rfl, canEnd⟩ := levelEnds_zero.mp (before 0 (Nat.succ_pos k))
              rw [gather_of_ends canEnd, gather_of_ends canEnd]
              exact inductionHypothesis (fun i less => levelEnds_succ.mp (before (i + 1) (Nat.succ_lt_succ less)))
                (fun ends => goesOn (levelEnds_succ.mpr ends)) (Nat.lt_of_succ_lt_succ inside) same

theorem gatherFrom_eq_of_take
    (before : ∀ i < k, LevelEnds (level :: outer) i) (goesOn : ¬ LevelEnds (level :: outer) k)
    (inside : k < (level :: outer).length) (agree : others.take k = outer.take k) :
    gatherFrom level others = gatherFrom level outer := by
  by_cases ends : LevelEnds (level :: outer) 0
  · have alsoEnds : LevelEnds (level :: others) 0 := levelEnds_zero.mpr (levelEnds_zero.mp ends)
    rw [gatherFrom_of_ends ends, gatherFrom_of_ends alsoEnds]
    apply gather_eq_of_take before goesOn inside
    rw [List.take_succ_cons, List.take_succ_cons, agree]
  · have alsoGoesOn : ¬ LevelEnds (level :: others) 0 := fun also => ends (levelEnds_zero.mpr (levelEnds_zero.mp also))
    rw [gatherFrom_of_not_ends ends, gatherFrom_of_not_ends alsoGoesOn]

/-- The outcome is the fault of the level, or has the symbols of the levels up to it less the epsilon mark, and the end of
the input if the level ends. -/
structure GatheredUpTo (levels : List (Except Fault RangeSet)) (k : Nat) (outcome : Except Fault RangeSet) : Prop where
  failed : ∀ fault, levels[k]? = some (.error fault) → outcome = .error fault
  joined : ∀ final, levels[k]? = some (.ok final) → ∃ found, outcome = .ok found ∧
    ∀ x, x ∈ found ↔ ShownUpTo levels k x ∨ (x = Symbol.endOfInput ∧ Symbol.epsilon ∈ final)

theorem gatheredUpTo_gatherFrom
    (last : LastLevel (level :: outer) k)
    (marked : ∀ following, .ok following ∈ level :: outer → following.Kept Range.Marked) :
    GatheredUpTo (level :: outer) k (gatherFrom level outer) := by
  by_cases ends : LevelEnds (level :: outer) 0
  · rw [gatherFrom_of_ends ends]
    refine ⟨fun fault failed => last.gather_error failed, fun final computed => ?_⟩
    obtain ⟨found, ok, members⟩ := last.gather_ok marked .empty computed
    exact ⟨found, ok, fun x => (members x).trans (or_iff_right (RangeSet.not_mem_empty x))⟩
  · rw [gatherFrom_of_not_ends ends]
    cases k with
    | succ k => exact absurd (lastLevel_succ.mp last).1 ends
    | zero =>
        refine ⟨fun fault failed => Option.some.inj failed, fun final computed => ?_⟩
        obtain rfl := Option.some.inj computed
        have goesOn : Symbol.epsilon ∉ final := fun canEnd => ends (levelEnds_zero.mpr ⟨final, rfl, canEnd⟩)
        refine ⟨final, rfl, fun x => ?_⟩
        rw [shownUpTo_zero, or_iff_left fun input => goesOn input.2]
        constructor
        · exact fun member => ⟨final, rfl, member, fun mark => goesOn (mark ▸ member)⟩
        · rintro ⟨_, same, member, _⟩
          exact Except.ok.inj same ▸ member

end Gather

/-! ## Expected symbols -/

section Expected

variable {work later : Workspace} {id : StateId} {following : RangeSet}

theorem kept_of_within
    (offers : work.net.Offers Range.OfInput) (keeps : work.net.Keeps Range.Marked) {state : Option StateId}
    (ok : within work state = .ok following) : following.Kept Range.Marked := by
  cases state with
  | none =>
      rw [within_none] at ok
      contradiction
  | some id =>
      rw [within_some] at ok
      cases known : (work.net.state id).withinRule with
      | some kept =>
          rw [known] at ok
          obtain rfl := Except.ok.inj ok
          exact keeps id _ known
      | none =>
          rw [known] at ok
          have marked : work.net.Offers Range.Marked := fun s made t member =>
            (offers s made t member).mono Range.OfInput.marked
          cases searched : work.net.lookahead {} (some id) .unknown with
          | error fault =>
              rw [searched] at ok
              contradiction
          | ok found =>
              rw [searched] at ok
              obtain rfl := Except.ok.inj ok
              exact (marked.kept admits_marked searched).freeze

theorem kept_of_mem_levels
    (offers : work.net.Offers Range.OfInput) (keeps : work.net.Keeps Range.Marked) {links : List Int}
    (member : .ok following ∈ levels work id links) : following.Kept Range.Marked := by
  rcases List.mem_cons.mp member with first | further
  · exact kept_of_within offers keeps first.symm
  · obtain ⟨link, _, ok⟩ := List.mem_map.mp further
    unfold level at ok
    cases followed : work.net.followState link with
    | error fault =>
        rw [followed] at ok
        contradiction
    | ok follow =>
        rw [followed] at ok
        exact kept_of_within offers keeps ok

/-- If the rule of the state cannot end, nothing else is looked at, and the answer is kept. -/
theorem runOn_expected_of_goesOn
    {number : Int} (slot : work.net.slot? number = some id) (ok : within work (some id) = .ok following)
    (goesOn : Symbol.epsilon ∉ following) (stack : CallStack) :
    ∃ later, (expected number stack).runOn work = (.ok following, later) ∧
      (id < work.net.store.size → (later.net.state id).withinRule = some following) := by
  have evaluated := withinRule_runOn work (some id)
  rw [← outcome_withinRule] at ok
  rw [expected, runOn_bind, runOn_network]
  simp only [slot, runOn_bind]
  generalize (withinRule (some id)).runOn work = answer at evaluated ok
  obtain ⟨outcome, later⟩ := answer
  obtain rfl : outcome = .ok following := ok
  refine ⟨later, ?_, fun made => ?_⟩
  · simp only [if_neg goesOn]
    rfl
  · cases evaluated with
    | known kept => exact kept
    | found unknown searches => exact congrArg State.withinRule (Network.state_modify_self made)

/-- What is expected under a chain of callers is what the levels have up to the first that cannot end, or up to the last;
it is the very set that is kept with the state if its own rule cannot end. Another chain that begins alike, up to that
level, leads to the same; but where the level ends, what comes next was that the chain is used up. -/
theorem expected_gathers_levels
    (work : Workspace) (offers : work.net.Offers Range.OfInput) (keeps : work.net.Keeps Range.Marked)
    (number : Int) (id : StateId) (slot : work.net.slot? number = some id) (callers : Callers) :
    ∃ k, LastLevel (levels work id callers.stack.links) k ∧
      GatheredUpTo (levels work id callers.stack.links) k ((expected number callers.stack).runOn work).1 ∧
      (∀ following, within work (some id) = .ok following → Symbol.epsilon ∉ following →
        k = 0 ∧ ∃ later, (expected number callers.stack).runOn work = (.ok following, later) ∧
          (id < work.net.store.size → (later.net.state id).withinRule = some following)) ∧
      ∀ other : Callers, other.stack.links.take k = callers.stack.links.take k →
        (LevelEnds (levels work id callers.stack.links) k → other.stack.links.length = k) →
          ((expected number other.stack).runOn work).1 = ((expected number callers.stack).runOn work).1 := by
  have outcome : ∀ stack : CallStack, ((expected number stack).runOn work).1 =
      gatherFrom (within work (some id)) (stack.links.map (level work)) := fun stack => by
    rw [outcome_expected, slot, Option.elim_some]
  obtain ⟨k, last⟩ := exists_lastLevel (within work (some id)) (callers.stack.links.map (level work))
  refine ⟨k, last, ?_, fun following ok goesOn => ⟨?_, runOn_expected_of_goesOn slot ok goesOn _⟩, fun other agree => ?_⟩
  · rw [outcome]
    exact gatheredUpTo_gatherFrom last fun following => kept_of_mem_levels offers keeps
  · cases k with
    | zero => rfl
    | succ k =>
        obtain ⟨final, same, canEnd⟩ := levelEnds_zero.mp (last.before 0 (Nat.succ_pos k))
        rw [ok] at same
        exact absurd (Except.ok.inj same ▸ canEnd) goesOn
  · intro used
    rw [outcome, outcome]
    by_cases ends : LevelEnds (levels work id callers.stack.links) k
    · have length : callers.stack.links.length = k := by
        have all := last.stops ends
        rw [List.length_cons, List.length_map] at all
        exact (Nat.succ.inj all).symm
      rw [List.take_of_length_le (Nat.le_of_eq (used ends)), List.take_of_length_le (Nat.le_of_eq length)] at agree
      rw [agree]
    · apply gatherFrom_eq_of_take last.before ends last.inside
      rw [← List.map_take, ← List.map_take, agree]

theorem truthful_leftRecursion : leftRecursion.Truthful := Network.truthful_of_unknown (by decide)

/-- Before the 1 in `e : e 1 | 2 ;`, 1 comes next. -/
theorem within_leftRecursion_before : within ⟨leftRecursion, []⟩ (some 6) = .ok ⟨some [.single 1], true⟩ := by
  have ends : Search.Ends leftRecursion {} (Search.start (some 6) .unknown) (.ok ⟨some [.single 1], false⟩) 2 :=
    .step rfl (Search.perform_visit_of_not_mem rfl (by simp [Search.start]) rfl)
      (.step rfl (Search.perform_consume_of_ok rfl) (.done rfl))
  rw [within_of_truthful truthful_leftRecursion, ends.lookahead_eq]
  rfl

theorem not_levelEnds_leftRecursion_before {outer : List (Except Fault RangeSet)} :
    ¬ LevelEnds (within ⟨leftRecursion, []⟩ (some 6) :: outer) 0 := by
  intro ends
  obtain ⟨following, ok, canEnd⟩ := levelEnds_zero.mp ends
  obtain rfl := Except.ok.inj (within_leftRecursion_before.symm.trans ok)
  exact absurd canEnd (by decide)

theorem levelEnds_leftRecursion_stop (links : List Int) : LevelEnds (levels ⟨leftRecursion, []⟩ 7 links) 0 :=
  levelEnds_zero.mpr ⟨_, within_of_isRuleStop truthful_leftRecursion rfl, by decide⟩

/-- At the end of `e`, nothing is shown, so what is gathered is what comes next where the first link returns. -/
theorem GatheredUpTo.leftRecursion_stop
    {link : Int} {links : List Int} {following : RangeSet} {outcome : Except Fault RangeSet}
    (gathered : GatheredUpTo (levels ⟨leftRecursion, []⟩ 7 (link :: links)) 1 outcome)
    (ok : level ⟨leftRecursion, []⟩ link = .ok following) :
    ∃ found, outcome = .ok found ∧ ∀ x, x ∈ found ↔
      (x ∈ following ∧ x ≠ Symbol.epsilon) ∨ (x = Symbol.endOfInput ∧ Symbol.epsilon ∈ following) := by
  obtain ⟨found, gatheredOk, members⟩ := gathered.joined following (congrArg some ok)
  refine ⟨found, gatheredOk, fun x => ?_⟩
  have nothing : ¬ (x ∈ (⟨some [.single Symbol.epsilon], true⟩ : RangeSet) ∧ x ≠ Symbol.epsilon) := fun shown =>
    shown.2 (RangeSet.mem_some_single.mp shown.1)
  rw [members x, levels, List.map_cons, ok, within_of_isRuleStop truthful_leftRecursion rfl, shownUpTo_succ,
    shownUpTo_zero_ok, shownUpTo_zero_ok, or_iff_right nothing]

/-- Before the 1 in `e : e 1 | 2 ;`, nothing but 1 is expected, under whatever callers, also under one that is not there.
The same is expected at the end of `e` if it was invoked from within itself, and callers beyond are not looked at. If it
was invoked from the outermost rule, that can end too, and nothing but the end of the input is expected. -/
theorem expected_gathers_levels_leftRecursion :
    leftRecursion.Offers Range.OfInput ∧ leftRecursion.Keeps Range.Marked ∧ leftRecursion.slot? 6 = some 6 ∧
      (∃ later, (expected 6 [77]).runOn ⟨leftRecursion, []⟩ = (.ok ⟨some [⟨1, 2⟩], true⟩, later) ∧
        (later.net.state 6).withinRule = some ⟨some [⟨1, 2⟩], true⟩) ∧
      (∀ other : Callers, ((expected 6 other.stack).runOn ⟨leftRecursion, []⟩).1 = .ok ⟨some [⟨1, 2⟩], true⟩) ∧
      leftRecursion.slot? 7 = some 7 ∧
      (∃ found, (∀ other : Callers, other.stack.links.take 1 = [4] →
        ((expected 7 other.stack).runOn ⟨leftRecursion, []⟩).1 = .ok found) ∧ ∀ x, x ∈ found ↔ x = 1) ∧
      ∃ found, ((expected 7 [1, -1]).runOn ⟨leftRecursion, []⟩).1 = .ok found ∧
        ∀ x, x ∈ found ↔ x = Symbol.endOfInput := by
  have offers : leftRecursion.Offers Range.OfInput := by decide
  have marked : leftRecursion.Offers Range.Marked := fun s made t member =>
    (offers s made t member).mono Range.OfInput.marked
  have keeps := truthful_leftRecursion.keeps admits_marked marked
  obtain ⟨k, _, _, settled, alike⟩ := expected_gathers_levels ⟨leftRecursion, []⟩ offers keeps 6 6 rfl (.chain [77])
  obtain ⟨rfl, later, run, kept⟩ := settled _ within_leftRecursion_before (by decide)
  refine ⟨offers, keeps, rfl, ⟨later, run, kept (by decide)⟩, fun other => ?_, rfl, ?_, ?_⟩
  · exact (alike other rfl fun ends => absurd ends not_levelEnds_leftRecursion_before).trans (congrArg Prod.fst run)
  · have inner : level ⟨leftRecursion, []⟩ 4 = .ok ⟨some [.single 1], true⟩ := within_leftRecursion_before
    obtain ⟨k, last, gathered, _, alike⟩ :=
      expected_gathers_levels ⟨leftRecursion, []⟩ offers keeps 7 7 rfl (.chain [4, 1, -1])
    obtain rfl : k = 1 := last.unique (lastLevel_succ.mpr
      ⟨levelEnds_leftRecursion_stop [4, 1], lastLevel_zero.mpr fun ends => absurd ends not_levelEnds_leftRecursion_before⟩)
    obtain ⟨found, ok, members⟩ := gathered.leftRecursion_stop inner
    refine ⟨found, fun other agree => ?_, fun x => ?_⟩
    · exact (alike other agree fun ends =>
        absurd (levelEnds_succ.mp ends) not_levelEnds_leftRecursion_before).trans ok
    · rw [members x, RangeSet.mem_some_single, RangeSet.mem_some_single, Symbol.epsilon]
      omega
  · have outermost : level ⟨leftRecursion, []⟩ 1 = .ok ⟨some [.single Symbol.epsilon], true⟩ :=
      within_of_isRuleStop truthful_leftRecursion rfl
    obtain ⟨k, last, gathered, _⟩ :=
      expected_gathers_levels ⟨leftRecursion, []⟩ offers keeps 7 7 rfl (.chain [1, -1])
    obtain rfl : k = 1 := last.unique (lastLevel_succ.mpr
      ⟨levelEnds_leftRecursion_stop [1], lastLevel_zero.mpr fun _ => rfl⟩)
    obtain ⟨found, ok, members⟩ := gathered.leftRecursion_stop outermost
    refine ⟨found, ok, fun x => ?_⟩
    rw [members x, RangeSet.mem_some_single, RangeSet.mem_some_single]
    tauto

/-- A rule that is nothing but its end. -/
def onlyStop : Network := .ofStates 1 [{ kind := .ruleStop, rule := 0 }]

/-- Where the last level ends, it matters whether there is a further link. -/
theorem expected_differs_with_further_link :
    ¬ ∀ (work : Workspace) (number : Int) (id : StateId) (callers other : Callers) (k : Nat),
      work.net.Offers Range.OfInput → work.net.Truthful → work.net.slot? number = some id →
        LastLevel (levels work id callers.stack.links) k →
          other.stack.links.take k = callers.stack.links.take k →
            ((expected number other.stack).runOn work).1 = ((expected number callers.stack).runOn work).1 := by
  intro claim
  have same := claim ⟨onlyStop, []⟩ 0 0 (.chain [-1]) (.chain [5, -1]) 0 (by decide)
    (Network.truthful_of_unknown (by decide)) rfl
    (lastLevel_zero.mpr fun _ => rfl) rfl
  have slot : onlyStop.slot? 0 = some 0 := rfl
  rw [outcome_expected, outcome_expected, slot, Option.elim_some, Option.elim_some,
    within_of_isRuleStop (Network.truthful_of_unknown (by decide)) rfl] at same
  exact nomatch same

end Expected

end Lookahead

end GrammarNet
