import GrammarNet.Proofs.Lookahead.Exact
import GrammarNet.Proofs.Lookahead.Kept
import GrammarNet.Proofs.Pushdown.Rooted

/-!
# Expected symbols

Which symbols are expected is found rule by rule, from what is kept for each rule, out along the chain of callers. A
single search under the same chain, ended by a root, finds the same symbols, and fails where the chain is followed to a
link that leads nowhere.
-/

namespace GrammarNet

/-! ## Sets that hold the epsilon mark -/

/-- The range holds no less than the epsilon mark, holds it if it begins with it, and is not inverted. -/
def Range.Marked (r : Range) : Prop :=
  Symbol.epsilon ≤ r.start ∧ r.start ≤ r.stop ∧ (r.start = Symbol.epsilon → Symbol.epsilon < r.stop)

theorem Range.OfInput.marked {r : Range} (ofInput : r.OfInput) : r.Marked := by
  obtain ⟨least, upright⟩ := ofInput
  exact ⟨Int.le_trans (by decide) least, upright, fun start => absurd (start ▸ least) (by decide)⟩

theorem admits_marked : Admits Range.Marked where
  upright := fun marked => marked.2.1
  mark := fun {x} least =>
    have less : x < x + 1 := Int.lt_succ x
    ⟨least, Int.le_of_lt less, fun _ => Int.lt_of_le_of_lt least less⟩
  interval := fun {greatest} large =>
    have upright : Symbol.firstUser ≤ greatest + 1 := Int.le_trans large (Int.le_of_lt (Int.lt_succ greatest))
    have marks : Symbol.epsilon < Symbol.firstUser := by decide
    ⟨Int.le_of_lt marks, upright, fun start => absurd marks (Int.not_lt.mpr (Int.le_of_eq start))⟩
  grows := fun {r s} marked start stop =>
    ⟨start ▸ marked.1, start ▸ Int.le_trans marked.2.1 stop, fun begins =>
      Int.lt_of_lt_of_le (marked.2.2 (start.trans begins)) stop⟩

/-- Taking the epsilon mark out leaves the other symbols. -/
theorem RangeSet.Kept.erase_epsilon {s : RangeSet} (kept : s.Kept Range.Marked) :
    (s.erase Symbol.epsilon).Kept Range.OfInput ∧
      ∀ x, x ∈ s.erase Symbol.epsilon ↔ x ∈ s ∧ x ≠ Symbol.epsilon := by
  obtain ⟨⟨bound, ascending⟩, marked⟩ := kept
  have least : ∀ r ∈ s.ranges, Symbol.epsilon - 1 < r.start := fun r member => Int.sub_one_lt_of_le (marked r member).1
  obtain ⟨ascends, starts, covers⟩ :=
    eraseFromRanges_of_ascending (ascending.raise least) fun r member => (marked r member).2.2
  rw [← ranges_erase] at ascends starts covers
  refine ⟨⟨⟨_, ascends⟩, fun r member => ⟨?_, ascends.start_le_stop member⟩⟩, covers⟩
  have reached : Symbol.epsilon ≤ r.start := Int.le_of_sub_one_lt (ascends.bound_lt_start member)
  exact Int.add_one_le_of_lt (Int.lt_iff_le_and_ne.mpr ⟨reached, (starts r member).symm⟩)

/-- Another set adds its symbols but for the epsilon mark. -/
theorem RangeSet.Kept.union_erase {found following : RangeSet}
    (kept : found.Kept Range.OfInput) (followingKept : following.Kept Range.Marked) :
    ((found.union following).erase Symbol.epsilon).Kept Range.OfInput ∧
      ∀ x, x ∈ (found.union following).erase Symbol.epsilon ↔ x ∈ found ∨ (x ∈ following ∧ x ≠ Symbol.epsilon) := by
  have together : (found.union following).Kept Range.Marked :=
    (kept.mono Range.OfInput.marked).union admits_marked followingKept.ranges
  obtain ⟨stays, members⟩ := together.erase_epsilon
  refine ⟨stays, fun x => ?_⟩
  have upright : ∀ r ∈ following.ranges, r.start ≤ r.stop := fun r member => (followingKept.ranges r member).2.1
  rw [members x, kept.ascending.mem_union upright, or_and_right]
  exact or_congr_left (and_iff_left_of_imp kept.ne_epsilon)

namespace Network

/-- What is kept with the states of the network is what a search finds within their rules. -/
def Faithful (net : Network) : Prop :=
  ∀ id ∈ net.listed, ∀ known, (net.state id).withinRule = some known →
    ∃ found, net.lookahead {} (some id) .unknown = .ok found ∧ known = found.freeze

theorem faithful_of_unknown {net : Network} (unknown : ∀ id ∈ net.listed, (net.state id).withinRule = none) :
    net.Faithful := by
  intro id listed known kept
  rw [unknown id listed] at kept
  contradiction

end Network

namespace Lookahead

/-! ## Answers that are kept -/

/-- The workspace has the graph of the network, and keeps what a search finds there. -/
structure Tracks (net : Network) (work : Workspace) : Prop where
  same : net.SameGraph work.net
  known : ∀ id ∈ net.listed, ∀ known, (work.net.state id).withinRule = some known →
    ∃ found, net.lookahead {} (some id) .unknown = .ok found ∧ known = found.freeze

section Tracks

variable {net : Network} {work : Workspace} {id : StateId} {mode : SearchMode} {stack : CallStack}
  {outcome : Except Fault RangeSet}

theorem Tracks.lookahead
    (tracks : Tracks net work) {state : Option StateId} (searches : Searches work.net mode state stack outcome) :
    net.lookahead mode state stack = outcome :=
  (tracks.same.lookahead mode state stack).symm.trans searches.lookahead_eq

theorem Tracks.fills (tracks : Tracks net work) {later : Workspace} (fills : work.net.Fills later.net) :
    Tracks net later where
  same := tracks.same.trans fills.same
  known := by
    intro id listed known kept
    rcases fills.kept id with unchanged | ⟨_, found, ok, filled⟩
    · exact tracks.known id listed known (unchanged ▸ kept)
    · have same : known = found.freeze := Option.some.inj (kept.symm.trans filled)
      exact ⟨found, (tracks.same.lookahead {} (some id) .unknown).symm.trans ok, same⟩

theorem WithinRule.tracks
    {state : Option StateId} {answer : Except Fault RangeSet × Workspace} (within : WithinRule work state answer)
    (tracks : Tracks net work) : Tracks net answer.2 :=
  tracks.fills within.fills

/-- Answering queries keeps what a network keeps faithful, whatever the queries and their order. -/
theorem faithful_runOn (faithful : work.net.Faithful) (query : Query) : (query.ask.runOn work).2.net.Faithful := by
  have tracks : Tracks work.net (query.ask.runOn work).2 := Tracks.fills ⟨.refl _, faithful⟩ (fills_runOn work query)
  intro id listed known kept
  have sameListed : id ∈ work.net.listed := by
    unfold Network.listed at listed ⊢
    rwa [tracks.same.slots] at listed
  obtain ⟨found, ok, same⟩ := tracks.known id sameListed known kept
  refine ⟨found, ?_, same⟩
  rw [← ok]
  exact (tracks.lookahead (searches_lookahead _ _ _ _)).symm

/-- What can come next within a rule is what a search finds there, whether it was kept or is searched for. -/
theorem WithinRule.eq_ok
    {answer : Except Fault RangeSet × Workspace} (within : WithinRule work (some id) answer) (tracks : Tracks net work)
    (listed : id ∈ net.listed) {found : RangeSet} (ok : net.lookahead {} (some id) .unknown = .ok found) :
    answer.1 = .ok found.freeze := by
  cases within with
  | known present =>
      obtain ⟨given, alsoOk, same⟩ := tracks.known id listed _ present
      rw [ok] at alsoOk
      rw [same, ← Except.ok.inj alsoOk]
  | failed _ searches =>
      have refused := tracks.lookahead searches
      rw [ok] at refused
      contradiction
  | found _ searches =>
      have alsoOk := tracks.lookahead searches
      rw [ok] at alsoOk
      rw [← Except.ok.inj alsoOk]

/-- Within a rule of the network, no search fails. -/
theorem WithinRule.not_error
    (regular : net.Regular Range.OfInput) (tracks : Tracks net work) (listed : id ∈ net.listed) {fault : Fault}
    {later : Workspace} : ¬ WithinRule work (some id) (.error fault, later) := by
  intro within
  obtain ⟨found, ok, _⟩ :=
    (regular.mono Range.OfInput.marked).exists_lookahead admits_marked {} listed Network.invoking_unknown
  have succeeded := within.eq_ok tracks listed ok
  contradiction

/-- What can come next within a rule is what can come first there. -/
theorem WithinRule.exact
    (regular : net.Regular Range.OfInput) (tracks : Tracks net work) (listed : id ∈ net.listed)
    {following : RangeSet} {later : Workspace} (within : WithinRule work (some id) (.ok following, later)) :
    following.Kept Range.Marked ∧ ∀ x, x ∈ following ↔ net.First {} ⟨id, .unknown⟩ x := by
  obtain ⟨found, ok, kept, first⟩ :=
    (regular.mono Range.OfInput.marked).exists_lookahead admits_marked {} listed Network.invoking_unknown
  obtain rfl := Except.ok.inj (within.eq_ok tracks listed ok)
  exact ⟨kept.freeze, fun x => RangeSet.mem_freeze.trans (first x)⟩

end Tracks

/-! ## Out along the chain -/

section Along

variable {net : Network} {work : Workspace} {id : StateId} {links : List Int} {found : RangeSet}
  {answer : Except Fault RangeSet × Workspace}

theorem epsilon_mem_iff
    (regular : net.Regular Range.OfInput) (listed : id ∈ net.listed) {following : RangeSet}
    (first : ∀ x, x ∈ following ↔ net.First {} ⟨id, .unknown⟩ x) : Symbol.epsilon ∈ following ↔ net.CanEnd id :=
  (first Symbol.epsilon).trans (Network.first_epsilon_iff regular.shape regular.labelled listed)

/-- What a rule adds to the symbols that were found before it. -/
theorem union_erase_epsilon
    (kept : found.Kept Range.OfInput) {following : RangeSet} (followingKept : following.Kept Range.Marked)
    (first : ∀ x, x ∈ following ↔ net.First {} ⟨id, .unknown⟩ x) :
    ((found.union following).erase Symbol.epsilon).Kept Range.OfInput ∧
      ∀ x, x ∈ (found.union following).erase Symbol.epsilon ↔
        x ∈ found ∨ (net.First {} ⟨id, .unknown⟩ x ∧ x ≠ Symbol.epsilon) := by
  simp only [← first]
  exact kept.union_erase followingKept

/-- Following a chain adds what can come first beyond the rule, or fails where the chain leads nowhere. -/
theorem ExpectedBeyond.exact
    (regular : net.Regular Range.OfInput) (evaluation : ExpectedBeyond work links found answer)
    (tracks : Tracks net work) (kept : found.Kept Range.OfInput) :
    (∃ result later, answer = (.ok result, later) ∧ (∀ x, x ∈ result ↔ x ∈ found ∨ net.Beyond links x) ∧
      ∀ fault, ¬ net.LostBeyond links fault) ∨
    ∃ fault later, answer = (.error fault, later) ∧ net.LostBeyond links fault := by
  have shape := regular.shape
  -- What the chain returns to is a state of the network, in which the answer within the rule is exact.
  have returned : ∀ {work : Workspace} {link : Int} {next : Option StateId}, Tracks net work →
      work.net.followState link = .ok next →
      ∃ target, next = some target ∧ net.ReturnsTo link target ∧ target ∈ net.listed := by
    intro work link next tracks followed
    rw [tracks.same.followState] at followed
    cases next with
    | none => exact absurd followed shape.followState_ne_ok_none
    | some target =>
        have returns := shape.followState_eq_ok_iff.mp followed
        exact ⟨target, rfl, returns, (shape.returnsTo returns).1⟩
  induction evaluation with
  | @exhausted work found =>
      refine Or.inl ⟨_, work, rfl, fun x => ?_, fun fault lost => lost⟩
      rw [kept.ascending.mem_insert, or_comm]
      exact Iff.rfl
  | @unreturned work link outer found fault followed =>
      rw [tracks.same.followState] at followed
      exact Or.inr ⟨fault, work, rfl, Or.inl followed⟩
  | refused followed within =>
      obtain ⟨target, rfl, _, listed⟩ := returned tracks followed
      exact absurd within (WithinRule.not_error regular tracks listed)
  | @settled work later link outer found following next followed within goesOn =>
      obtain ⟨target, rfl, returns, listed⟩ := returned tracks followed
      obtain ⟨followingKept, first⟩ := within.exact regular tracks listed
      have ended : ¬ net.CanEnd target := fun canEnd => goesOn ((epsilon_mem_iff regular listed first).mpr canEnd)
      refine Or.inl ⟨_, later, rfl, fun x => ?_, fun fault lost => ?_⟩
      · rw [(union_erase_epsilon kept followingKept first).2 x, Network.beyond_cons_iff shape returns]
        exact or_congr_right (or_iff_left fun beyond => ended beyond.1).symm
      · exact ended ((Network.lostBeyond_cons_iff shape returns).mp lost).1
  | @further work later link outer found following next answer followed within canEnd _ inductionHypothesis =>
      obtain ⟨target, rfl, returns, listed⟩ := returned tracks followed
      obtain ⟨followingKept, first⟩ := within.exact regular tracks listed
      have ends : net.CanEnd target := (epsilon_mem_iff regular listed first).mp canEnd
      obtain ⟨stays, members⟩ := union_erase_epsilon kept followingKept first
      rcases inductionHypothesis (within.tracks tracks) stays with
        ⟨result, last, rfl, resultMembers, notLost⟩ | ⟨fault, last, rfl, lost⟩
      · refine Or.inl ⟨result, last, rfl, fun x => ?_, fun fault lost => ?_⟩
        · rw [resultMembers x, members x, Network.beyond_cons_iff shape returns, or_assoc]
          exact or_congr_right (or_congr_right (and_iff_right ends).symm)
        · exact notLost fault ((Network.lostBeyond_cons_iff shape returns).mp lost).2
      · exact Or.inr ⟨fault, last, rfl, (Network.lostBeyond_cons_iff shape returns).mpr ⟨ends, lost⟩⟩

/-- The symbols that are expected are those that can come first under the chain, ended by a root. There are none only
where returning along the chain comes to a link that leads nowhere. -/
theorem Expected.exact
    (regular : net.Regular Range.OfInput) {number : Int} {stack : CallStack}
    (expected : Expected work number stack answer) (tracks : Tracks net work)
    (slot : net.slot? number = some id) :
    (∃ result later, answer = (.ok result, later) ∧
      (∀ x, x ∈ result ↔ net.First {} ⟨id, .rooted stack.links⟩ x) ∧
      ∀ fault, ¬ (net.CanEnd id ∧ net.LostBeyond stack.links fault)) ∨
    ∃ fault later, answer = (.error fault, later) ∧ net.CanEnd id ∧ net.LostBeyond stack.links fault := by
  have listed : id ∈ net.listed := Network.mem_listed_of_slot? slot
  have rooted : ∀ x, net.First {} ⟨id, .rooted stack.links⟩ x ↔
      (net.First {} ⟨id, .unknown⟩ x ∧ x ≠ Symbol.epsilon) ∨ (net.CanEnd id ∧ net.Beyond stack.links x) := fun x =>
    Network.first_rooted_iff regular.shape regular.labelled listed (CallStack.invoked_links stack)
  have sameId : ∀ {other : StateId}, work.net.slot? number = some other → other = id := by
    intro other found
    rw [tracks.same.slot?, slot] at found
    exact (Option.some.inj found).symm
  cases expected with
  | unlisted absent =>
      rw [tracks.same.slot?, slot] at absent
      contradiction
  | refused found within =>
      obtain rfl := sameId found
      exact absurd within (WithinRule.not_error regular tracks listed)
  | @settled _ following later found within goesOn =>
      obtain rfl := sameId found
      obtain ⟨_, first⟩ := within.exact regular tracks listed
      have ended : ¬ net.CanEnd _ := fun canEnd => goesOn ((epsilon_mem_iff regular listed first).mpr canEnd)
      refine Or.inl ⟨_, later, rfl, fun x => ?_, fun fault lost => ended lost.1⟩
      rw [rooted x, or_iff_left fun beyond => ended beyond.1, first x]
      refine (and_iff_left_of_imp fun shown => ?_).symm
      rintro rfl
      exact goesOn ((first _).mpr shown)
  | @further _ following later answer found within canEnd beyond =>
      obtain rfl := sameId found
      obtain ⟨followingKept, first⟩ := within.exact regular tracks listed
      have ends : net.CanEnd _ := (epsilon_mem_iff regular listed first).mp canEnd
      obtain ⟨stays, members⟩ := union_erase_epsilon .empty followingKept first
      rcases beyond.exact regular (within.tracks tracks) stays with
        ⟨result, last, rfl, resultMembers, notLost⟩ | ⟨fault, last, rfl, lost⟩
      · refine Or.inl ⟨result, last, rfl, fun x => ?_, fun fault lost => notLost fault lost.2⟩
        rw [resultMembers x, members x, rooted x, or_iff_right (RangeSet.not_mem_empty x), and_iff_right ends]
      · exact Or.inr ⟨fault, last, rfl, ends, lost⟩

end Along

/-! ## Both ways agree -/

/-- Both outcomes are the same fault, or sets with the same members. -/
def Agree : Except Fault RangeSet → Except Fault RangeSet → Prop
  | .ok found, .ok other => ∀ x, x ∈ found ↔ x ∈ other
  | .error fault, .error other => fault = other
  | _, _ => False

/-- The symbols that are expected after a state under any callers are those that a single search finds under their
invocations, ended by a root; and if one of the two fails, so does the other, with the same fault. -/
theorem expected_agrees_with_look
    (work : Workspace) (regular : work.net.Regular Range.OfInput) (faithful : work.net.Faithful)
    (number : Int) (id : StateId) (slot : work.net.slot? number = some id) (callers : Callers) :
    Agree ((expected number callers.stack).runOn work).1 ((look (some id) none callers.rooted).runOn work).1 := by
  have shape := regular.shape
  have tracks : Tracks work.net work := ⟨.refl _, faithful⟩
  have listed : id ∈ work.net.listed := Network.mem_listed_of_slot? slot
  have fails : ∀ {fault : Fault},
      (∃ p, work.net.Reaches {} ⟨id, callers.rooted⟩ p ∧ work.net.Fails p fault) ↔
        work.net.CanEnd id ∧ work.net.LostBeyond callers.stack.links fault :=
    Network.fails_rooted_iff shape listed (CallStack.invoked_links callers.stack)
  rw [runOn_look]
  rcases (expected_runOn work number callers.stack).exact regular tracks slot with
    ⟨result, later, answer, members, notLost⟩ | ⟨fault, later, answer, lost⟩
  · rcases (regular.mono Range.OfInput.marked).lookahead admits_marked {} listed callers.rooted with
      ⟨found, ok, _, first, _⟩ | ⟨fault, p, _, reaches, failed⟩
    · rw [answer, ok]
      exact fun x => (members x).trans (first x).symm
    · exact absurd (fails.mp ⟨p, reaches, failed⟩) (notLost fault)
  · rcases (regular.mono Range.OfInput.marked).lookahead admits_marked {} listed callers.rooted with
      ⟨found, _, _, _, notFails⟩ | ⟨other, p, failed, reaches, alsoFails⟩
    · obtain ⟨p, reaches, failed⟩ := fails.mpr lost
      exact absurd failed (notFails p fault reaches)
    · rw [answer, failed]
      exact Network.lostBeyond_unique shape lost.2 (fails.mp ⟨p, reaches, alsoFails⟩).2

/-- At the end of `e`, invoked by a rule about whose callers nothing is known. -/
theorem expected_agrees_with_look_leftRecursion :
    leftRecursion.Faithful ∧ leftRecursion.slot? 7 = some 7 ∧
      Agree ((expected 7 [1]).runOn ⟨leftRecursion, []⟩).1 ((look (some 7) none [1, -1]).runOn ⟨leftRecursion, []⟩).1 :=
  have faithful : leftRecursion.Faithful := Network.faithful_of_unknown (by decide)
  ⟨faithful, rfl, expected_agrees_with_look ⟨leftRecursion, []⟩ leftRecursion_regular faithful 7 7 rfl (.chain [1])⟩

/-- A rule with two entries, in a loop of invocations. -/
def sharedRule : Network :=
  .ofStates 5 [
    { kind := .basic, rule := 0, transitions := [⟨1, .epsilon (-1)⟩, ⟨2, .epsilon (-1)⟩] },
    { kind := .ruleStop, rule := 0 },
    { kind := .basic, rule := 0, transitions := [⟨3, .rule 0 0 (some 4)⟩] },
    { kind := .ruleStart, rule := 0, transitions := [⟨4, .atom 5 (.single 5)⟩] },
    { kind := .basic, rule := 0 },
    { kind := .ruleStart, rule := 0, transitions := [⟨2, .epsilon (-1)⟩] },
    { kind := .basic, rule := 1, transitions := [⟨5, .rule 0 0 (some 7)⟩] },
    { kind := .basic, rule := 1, transitions := [⟨6, .epsilon (-1)⟩] }]

/-- The rule can come back to itself, and every path from its entries to its stop consumes. -/
theorem sharedRule_guarded : sharedRule.Guarded :=
  have unstopped : sharedRule.Unstopped [2, 3, 5] := by decide
  unstopped.guarded (by decide)

/-- The search comes back to the second state with the rule entered before the path that has not entered it. -/
theorem lookahead_sharedRule : sharedRule.lookahead {} (some 0) [6, -1] = .ok .empty := by
  have ends : Search.Ends sharedRule {} (Search.start (some 0) [6, -1]) (.ok .empty) 7 :=
    .step rfl (Search.perform_visit_of_not_mem rfl (by simp [Search.start]) rfl)
      (.step rfl (Search.perform_visit_of_not_mem rfl (by simp [Search.start]; decide) rfl)
        (.step rfl (Search.perform_visit_of_not_mem rfl (by simp [Search.start]) rfl)
          (.step rfl (Search.perform_visit_of_not_mem rfl (by simp [Search.start]; decide) rfl)
            (.step rfl (Search.perform_visit_of_not_mem rfl (by simp [Search.start, CallStack.push]; decide) rfl)
              (.step rfl (Search.perform_visit_of_not_mem rfl (by simp [Search.start, CallStack.push]; decide) rfl)
                (.step rfl (Search.perform_visit_of_mem rfl (by simp [Search.start, CallStack.push]; decide))
                  (.done rfl)))))))
  exact ends.lookahead_eq

/-- Rule by rule, no search remembers what another has entered. -/
theorem expected_sharedRule :
    ((expected 0 [6, -1]).runOn ⟨sharedRule, []⟩).1 = .ok ⟨some [⟨5, 6⟩], false⟩ := by
  have inner : Search.Ends sharedRule {} (Search.start (some 0) .unknown) (.ok ⟨some [⟨-2, -1⟩, ⟨5, 6⟩], false⟩) 6 :=
    .step rfl (Search.perform_visit_of_not_mem rfl (by simp [Search.start]) rfl)
      (.step rfl (Search.perform_visit_of_not_mem rfl (by simp [Search.start]; decide) rfl)
        (.step rfl rfl
          (.step rfl (Search.perform_visit_of_not_mem rfl (by simp [Search.start]; decide) rfl)
            (.step rfl (Search.perform_visit_of_not_mem rfl (by simp [Search.start, CallStack.push]) rfl)
              (.step rfl (Search.perform_consume_of_ok rfl) (.done rfl))))))
  have later : Search.Ends (keep ⟨sharedRule, []⟩ 0 ⟨some [⟨-2, -1⟩, ⟨5, 6⟩], true⟩).net {}
      (Search.start (some 7) .unknown) (.ok .empty) 4 :=
    .step rfl (Search.perform_visit_of_not_mem rfl (by simp [Search.start]) rfl)
      (.step rfl (Search.perform_visit_of_not_mem rfl (by simp [Search.start]; decide) rfl)
        (.step rfl (Search.perform_visit_of_not_mem rfl (by simp [Search.start, CallStack.push]) rfl)
          (.step rfl (Search.perform_visit_of_not_mem rfl (by simp [Search.start, CallStack.push]; decide) rfl)
            (.done rfl))))
  have first : (withinRule (some 0)).runOn ⟨sharedRule, []⟩ = _ := runOn_withinRule_of_ends rfl inner
  have second := runOn_withinRule_of_ends rfl later
  have beyond : ((expectedBeyond [6] ⟨some [⟨5, 6⟩], false⟩).runOn
      (keep ⟨sharedRule, []⟩ 0 ⟨some [⟨-2, -1⟩, ⟨5, 6⟩], true⟩)).1 = .ok ⟨some [⟨5, 6⟩], false⟩ := by
    have follow : (keep ⟨sharedRule, []⟩ 0 ⟨some [⟨-2, -1⟩, ⟨5, 6⟩], true⟩).net.followState 6 = .ok (some 7) := rfl
    simp only [expectedBeyond, NetM.runOn_bind, NetM.runOn_network, NetM.runOn_lift, follow, second]
    rfl
  simp only [expected, NetM.runOn_bind, NetM.runOn_network, show sharedRule.slot? 0 = some 0 from rfl, first]
  exact beyond

/-- The two ways differ on a rule with two entries: the single search loses what is expected. -/
theorem expected_differs_from_look_with_two_entries :
    ¬ ∀ (work : Workspace) (number : Int) (id : StateId) (callers : Callers),
      work.net.WellFormed → work.net.Labelled Range.OfInput → work.net.Guarded → work.net.Faithful →
        work.net.slot? number = some id →
          Agree ((expected number callers.stack).runOn work).1 ((look (some id) none callers.rooted).runOn work).1 := by
  intro claim
  have agree : Agree ((expected 0 [6, -1]).runOn ⟨sharedRule, []⟩).1
      ((look (some 0) none [6, -1]).runOn ⟨sharedRule, []⟩).1 :=
    claim ⟨sharedRule, []⟩ 0 0 (.chain [6, -1]) (by decide) (by decide) sharedRule_guarded
      (Network.faithful_of_unknown (by decide)) rfl
  rw [expected_sharedRule, runOn_look, lookahead_sharedRule] at agree
  exact RangeSet.not_mem_empty 5 ((agree 5).mp (by decide))

end Lookahead

end GrammarNet
