import GrammarNet.Proofs.Construction.Verified

/-!
# States that mix transitions

A state keeps a flag that tells whether all its transitions consume nothing. The flag is not read off the transitions:
it follows from its previous value and the transition that is added, and once it is cleared it does not tell any more
whether the state consumes only or mixes. That a state mixes is noticed when it happens, and a verification that trusts
the flag refuses every state that mixes or has several ways to consume.
-/

namespace GrammarNet

namespace State

/-- Some transitions consume nothing, and others do not. -/
def Mixed (s : State) : Prop :=
  (∃ t ∈ s.transitions, t.isEpsilon = true) ∧ ∃ t ∈ s.transitions, t.isEpsilon = false

/-- The flag stands only where all transitions consume nothing. -/
def Flagged (s : State) : Prop := s.epsilonOnly = some true → ∀ t ∈ s.transitions, t.isEpsilon = true

/-- What an attempt to put a transition at a position makes of the state. A number that is no position is noticed only
after the state was made ready. -/
def offered (s : State) (t : Transition) (position : Option Int) : State :=
  if position.all addressable = true then s.addTransition t position else s.prepare t

/-- A state that nobody has noticed to mix does not: the flag stands, or all its transitions consume. -/
structure Watched (s : State) (times : Nat) : Prop where
  flagged : s.Flagged
  unnoticed : times = 0 → s.epsilonOnly ≠ some true → ∀ t ∈ s.transitions, t.isEpsilon = false

/-- The flag is cleared only for transitions that are there, and only a state that mixes is noticed to do so. -/
structure Told (s : State) (times : Nat) : Prop where
  nonempty : s.transitions ≠ []
  cleared : s.epsilonOnly ≠ some true → ∃ t ∈ s.transitions, t.isEpsilon = false
  uncleared : s.epsilonOnly ≠ some false → ∃ t ∈ s.transitions, t.isEpsilon = true
  noticed : 0 < times → s.Mixed

/-- What calls leave behind: a state that was watched, and of which the truth was told if `proper` holds of the calls. -/
structure Attended (proper : Prop) (s : State) (times : Nat) : Prop where
  watched : s.Watched times
  told : proper → s.Told times

section Flag

variable {s : State} {t u : Transition} {position : Option Int} {times : Nat}

/-! ## The flag -/

theorem mem_insertTransition_iff :
    u ∈ (s.insertTransition t position).transitions ↔ u = t ∨ u ∈ s.transitions := by
  cases position with
  | none => simp [insertTransition, or_comm]
  | some i =>
      unfold insertTransition
      exact List.mem_insertIdx (insertionPoint_le s.transitions.length i)

theorem mem_offered_iff (proper : position.all addressable = true) :
    u ∈ (s.offered t position).transitions ↔ u = t ∨ u ∈ s.transitions := by
  unfold offered
  rw [if_pos proper]
  exact mem_insertTransition_iff

theorem eq_or_mem_of_mem_offered (member : u ∈ (s.offered t position).transitions) :
    (u = t ∧ position.all addressable = true) ∨ u ∈ s.transitions := by
  by_cases proper : position.all addressable = true
  · rcases (mem_offered_iff proper).mp member with same | before
    · exact Or.inl ⟨same, proper⟩
    · exact Or.inr before
  · unfold offered at member
    rw [if_neg proper] at member
    exact Or.inr member

theorem number_offered : (s.offered t position).number = s.number := by
  unfold offered
  split <;> rfl

theorem epsilonOnly_offered : (s.offered t position).epsilonOnly = (s.prepare t).epsilonOnly := by
  unfold offered
  split <;> rfl

theorem epsilonOnly_prepare_of_nil (empty : s.transitions = []) : (s.prepare t).epsilonOnly = some t.isEpsilon := by
  simp [prepare, empty]

theorem epsilonOnly_prepare_of_mixesWith (mixes : s.mixesWith t = true) : (s.prepare t).epsilonOnly = some false := by
  have nonempty : s.transitions.isEmpty = false := by
    have both := (Bool.and_eq_true _ _).mp mixes
    simpa using both.1
  simp [prepare, nonempty, mixes]

/-- A transition that does not mix with those of the state agrees with the flag. -/
theorem epsilonOnly_prepare_of_not_mixesWith
    (nonempty : s.transitions ≠ []) (agrees : s.mixesWith t = false) :
    (s.prepare t).epsilonOnly = s.epsilonOnly ∧ s.epsilonOnly = some t.isEpsilon := by
  have listed : s.transitions.isEmpty = false := by simpa using nonempty
  have same : s.epsilonOnly = some t.isEpsilon := by simpa [mixesWith, listed] using agrees
  exact ⟨by simp [prepare, listed, agrees], same⟩

theorem mixesWith_of_nil (empty : s.transitions = []) : s.mixesWith t = false := by simp [mixesWith, empty]

theorem epsilonOnly_ne_of_mixesWith (mixes : s.mixesWith t = true) : s.epsilonOnly ≠ some t.isEpsilon := by
  have both := (Bool.and_eq_true _ _).mp mixes
  simpa using both.2

/-- The flag stands after a transition only if it stood before, or if there was none, and the transition consumes
nothing. -/
theorem epsilonOnly_prepare_eq_true_iff :
    (s.prepare t).epsilonOnly = some true ↔ t.isEpsilon = true ∧ (s.transitions = [] ∨ s.epsilonOnly = some true) := by
  by_cases empty : s.transitions = []
  · rw [epsilonOnly_prepare_of_nil empty]
    simp [empty]
  · cases mixes : s.mixesWith t with
    | true =>
        rw [epsilonOnly_prepare_of_mixesWith mixes]
        have differs := epsilonOnly_ne_of_mixesWith mixes
        refine iff_of_false nofun fun stands => ?_
        rw [stands.1] at differs
        exact differs (stands.2.resolve_left empty)
    | false =>
        obtain ⟨kept, same⟩ := epsilonOnly_prepare_of_not_mixesWith empty mixes
        rw [kept, same]
        simp [empty]

theorem Flagged.offered (flagged : s.Flagged) : (s.offered t position).Flagged := by
  intro stands u member
  rw [epsilonOnly_offered, epsilonOnly_prepare_eq_true_iff] at stands
  rcases eq_or_mem_of_mem_offered member with ⟨rfl, _⟩ | before
  · exact stands.1
  · rcases stands.2 with empty | stood
    · rw [empty] at before
      exact absurd before List.not_mem_nil
    · exact flagged stood u before

theorem flagged_of_nil (empty : s.transitions = []) : s.Flagged := by
  intro _ t member
  rw [empty] at member
  exact absurd member List.not_mem_nil

/-! ## What is noticed -/

theorem watched_of_nil (empty : s.transitions = []) : s.Watched times where
  flagged := flagged_of_nil empty
  unnoticed := by
    intro _ _ t member
    rw [empty] at member
    exact absurd member List.not_mem_nil

theorem Watched.offered (watched : s.Watched times) :
    (s.offered t position).Watched (times + (s.mixesWith t).toNat) where
  flagged := watched.flagged.offered
  unnoticed := by
    intro unnoticed cleared u member
    rw [epsilonOnly_offered] at cleared
    have agrees : s.mixesWith t = false := by
      cases mixes : s.mixesWith t with
      | false => rfl
      | true =>
          rw [mixes] at unnoticed
          exact absurd unnoticed (Nat.succ_ne_zero times)
    have before : times = 0 := (Nat.add_eq_zero_iff.mp unnoticed).1
    by_cases empty : s.transitions = []
    · rw [epsilonOnly_prepare_of_nil empty] at cleared
      rcases eq_or_mem_of_mem_offered member with ⟨rfl, _⟩ | earlier
      · simpa using cleared
      · rw [empty] at earlier
        exact absurd earlier List.not_mem_nil
    · obtain ⟨kept, same⟩ := epsilonOnly_prepare_of_not_mixesWith empty agrees
      rw [kept] at cleared
      rcases eq_or_mem_of_mem_offered member with ⟨rfl, _⟩ | earlier
      · rw [same] at cleared
        simpa using cleared
      · exact watched.unnoticed before cleared u earlier

theorem Watched.pos_of_mixed (watched : s.Watched times) (mixed : s.Mixed) : 0 < times := by
  obtain ⟨⟨t, member, free⟩, u, alsoMember, consumes⟩ := mixed
  by_contra unnoticed
  by_cases stands : s.epsilonOnly = some true
  · have allFree := watched.flagged stands u alsoMember
    exact Bool.noConfusion (allFree.symm.trans consumes)
  · have allConsume := watched.unnoticed (Nat.eq_zero_of_not_pos unnoticed) stands t member
    exact Bool.noConfusion (free.symm.trans allConsume)

theorem told_of_nil (empty : s.transitions = []) (proper : position.all addressable = true) :
    (s.offered t position).Told (s.mixesWith t).toNat := by
  have added : t ∈ (s.offered t position).transitions := (mem_offered_iff proper).mpr (Or.inl rfl)
  have flag : (s.offered t position).epsilonOnly = some t.isEpsilon := by
    rw [epsilonOnly_offered, epsilonOnly_prepare_of_nil empty]
  refine ⟨List.ne_nil_of_mem added, fun cleared => ⟨t, added, ?_⟩, fun uncleared => ⟨t, added, ?_⟩, fun noticed => ?_⟩
  · rw [flag] at cleared
    simpa using cleared
  · rw [flag] at uncleared
    simpa using uncleared
  · rw [mixesWith_of_nil empty] at noticed
    exact absurd noticed (Nat.lt_irrefl 0)

theorem Told.offered (told : s.Told times) (proper : position.all addressable = true) :
    (s.offered t position).Told (times + (s.mixesWith t).toNat) := by
  have added : t ∈ (s.offered t position).transitions := (mem_offered_iff proper).mpr (Or.inl rfl)
  have kept : ∀ {u : Transition}, u ∈ s.transitions → u ∈ (s.offered t position).transitions := fun before =>
    (mem_offered_iff proper).mpr (Or.inr before)
  have stays : ∀ {free : Bool}, (∃ u ∈ s.transitions, u.isEpsilon = free) →
      ∃ u ∈ (s.offered t position).transitions, u.isEpsilon = free := by
    rintro free ⟨u, before, same⟩
    exact ⟨u, kept before, same⟩
  refine ⟨List.ne_nil_of_mem added, fun cleared => ?_, fun uncleared => ?_, fun noticed => ?_⟩
  · rw [epsilonOnly_offered, ne_eq, epsilonOnly_prepare_eq_true_iff, or_iff_right told.nonempty, not_and] at cleared
    cases free : t.isEpsilon with
    | false => exact ⟨t, added, free⟩
    | true => exact stays (told.cleared (cleared free))
  · rw [epsilonOnly_offered] at uncleared
    cases mixes : s.mixesWith t with
    | true => exact absurd (epsilonOnly_prepare_of_mixesWith mixes) uncleared
    | false =>
        obtain ⟨same, agrees⟩ := epsilonOnly_prepare_of_not_mixesWith told.nonempty mixes
        rw [same] at uncleared
        exact stays (told.uncleared uncleared)
  · cases mixes : s.mixesWith t with
    | false =>
        rw [mixes] at noticed
        have before := told.noticed noticed
        exact ⟨stays before.1, stays before.2⟩
    | true =>
        -- The transition is of one kind, and the flag tells that one of the other kind is there.
        have differs := epsilonOnly_ne_of_mixesWith mixes
        cases free : t.isEpsilon with
        | true =>
            rw [free] at differs
            exact ⟨⟨t, added, free⟩, stays (told.cleared differs)⟩
        | false =>
            rw [free] at differs
            exact ⟨stays (told.uncleared differs), t, added, free⟩

theorem attended_of_nil
    {proper : Prop} (empty : s.transitions = []) (fits : proper → position.all addressable = true) :
    (s.offered t position).Attended proper 0 := by
  have start : s.Watched 0 := watched_of_nil empty
  have watched : (s.offered t position).Watched (0 + (s.mixesWith t).toNat) := start.offered
  rw [mixesWith_of_nil empty] at watched
  refine ⟨watched, fun holds => ?_⟩
  have told : (s.offered t position).Told (s.mixesWith t).toNat := told_of_nil empty (fits holds)
  rwa [mixesWith_of_nil empty] at told

theorem Attended.offered
    {proper : Prop} (attended : s.Attended proper times) (fits : proper → position.all addressable = true) :
    (s.offered t position).Attended proper (times + (s.mixesWith t).toNat) where
  watched := attended.watched.offered
  told := fun holds => (attended.told holds).offered (fits holds)

theorem Told.flag_iff (told : s.Told times) (flagged : s.Flagged) :
    s.epsilonOnly = some true ↔ s.transitions ≠ [] ∧ ∀ t ∈ s.transitions, t.isEpsilon = true := by
  constructor
  · exact fun stands => ⟨told.nonempty, flagged stands⟩
  · rintro ⟨_, allFree⟩
    by_contra cleared
    obtain ⟨t, member, consumes⟩ := told.cleared cleared
    exact Bool.noConfusion ((allFree t member).symm.trans consumes)

end Flag

/-! ## Verification -/

/-- The state mixes, or has several ways to consume. -/
def Entangled (s : State) : Prop := s.Mixed ∨ 2 ≤ (s.transitions.filter fun t => !t.isEpsilon).length

theorem Entangled.consumes_and_branches {s : State} (entangled : s.Entangled) :
    (∃ t ∈ s.transitions, t.isEpsilon = false) ∧ 2 ≤ s.transitions.length := by
  rcases entangled with ⟨⟨t, member, free⟩, u, alsoMember, consumes⟩ | several
  · refine ⟨⟨u, alsoMember, consumes⟩, ?_⟩
    by_contra single
    have nonempty := List.length_pos_of_mem member
    obtain ⟨only, same⟩ := List.length_eq_one_iff.mp (by omega : s.transitions.length = 1)
    rw [same, List.mem_singleton] at member alsoMember
    rw [member, ← alsoMember, consumes] at free
    exact Bool.noConfusion free
  · refine ⟨?_, Nat.le_trans several (List.length_filter_le _ _)⟩
    have nonempty : 0 < (s.transitions.filter fun t => !t.isEpsilon).length := by omega
    obtain ⟨t, member⟩ := List.exists_mem_of_length_pos nonempty
    have consumes := (List.mem_filter.mp member)
    exact ⟨t, consumes.1, by simpa using consumes.2⟩

end State

namespace Network

/-- In every state, the flag stands only where all transitions consume nothing. -/
def Flagged (net : Network) : Prop := ∀ id, (net.state id).Flagged

section Flagged

variable {net later : Network} {id : StateId} {s : State}

/-- A verification refuses what mixes or has several ways to consume, although it looks at the flag alone. -/
theorem verify_ne_ok_of_entangled
    (listed : id ∈ net.listed) (flagged : (net.state id).Flagged) (entangled : (net.state id).Entangled) :
    net.verify ≠ .ok () := by
  intro verified
  have passed := (andThen_eq_ok_iff.mp (verifyState_of_verify verified listed)).1
  obtain ⟨⟨t, member, consumes⟩, several⟩ := entangled.consumes_and_branches
  rcases ensure_eq_ok_iff.mp passed with stands | single
  · exact Bool.noConfusion ((flagged stands t member).symm.trans consumes)
  · omega

theorem Flagged.of_store_eq (flagged : net.Flagged) (same : later.store = net.store) : later.Flagged := by
  intro id
  have kept : later.state id = net.state id := by
    unfold state
    rw [same]
  rw [kept]
  exact flagged id

theorem Flagged.of_store_push
    (flagged : net.Flagged) (empty : s.transitions = []) (pushed : later.store = net.store.push s) : later.Flagged := by
  intro id
  unfold state
  rw [pushed, Array.getElem?_push]
  split
  · exact State.flagged_of_nil empty
  · exact flagged id

theorem Flagged.grown (flagged : net.Flagged) (kind : StateKind) (rule : Int) : (net.grown kind rule).Flagged :=
  flagged.of_store_push rfl rfl

theorem Flagged.modify
    {f : State → State} (flagged : net.Flagged) (keeps : ∀ s : State, s.Flagged → (f s).Flagged) (id : StateId) :
    (net.modify id f).Flagged := by
  intro other
  rcases net.state_modify id other f with kept | ⟨_, changed⟩
  · rw [kept]
    exact flagged other
  · rw [changed]
    exact keeps _ (flagged other)

end Flagged

end Network

namespace Construction

open NetM

/-! ## Transitions added to one state -/

/-- The workspace after some transitions were added to a state, each at the end or at a position. A call that fails is
followed by the next one. -/
def attachAll (id : StateId) (calls : List (Transition × Option Int)) (work : Workspace) : Workspace :=
  calls.foldl (fun work call => ((attach (some id) call.1 call.2).runOn work).2) work

section Calls

variable {work : Workspace} {id : StateId} {calls : List (Transition × Option Int)} {times : Nat}

theorem attachAll_cons (call : Transition × Option Int) (rest : List (Transition × Option Int)) :
    attachAll id (call :: rest) work = attachAll id rest ((attach (some id) call.1 call.2).runOn work).2 :=
  List.foldl_cons

theorem net_runOn_attach_eq_offered (t : Transition) (position : Option Int) :
    ((attach (some id) t position).runOn work).2.net = work.net.modify id (·.offered t position) := by
  rw [net_runOn_attach]
  by_cases proper : position.all addressable = true
  · simp only [State.offered, proper, if_true]
  · simp only [State.offered, proper, Bool.false_eq_true, if_false]

theorem state_runOn_attach (made : id < work.net.store.size) (t : Transition) (position : Option Int) :
    ((attach (some id) t position).runOn work).2.net.state id = (work.net.state id).offered t position := by
  rw [net_runOn_attach_eq_offered]
  exact Network.state_modify_self made

theorem size_runOn_attach (t : Transition) (position : Option Int) :
    ((attach (some id) t position).runOn work).2.net.store.size = work.net.store.size := by
  rw [net_runOn_attach_eq_offered]
  exact Network.size_modify _

/-- What each call preserves holds after all of them, of the state and of how often it was noticed to mix. -/
theorem attachAll_invariant
    {I : State → Nat → Prop} (made : id < work.net.store.size)
    (step : ∀ call ∈ calls, ∀ s times, I s times → I (s.offered call.1 call.2) (times + (s.mixesWith call.1).toNat))
    (holds : I (work.net.state id) times) :
    ∃ more, (attachAll id calls work).log =
        work.log ++ List.replicate more (.mixedTransitions (work.net.state id).number) ∧
      I ((attachAll id calls work).net.state id) (times + more) := by
  induction calls generalizing work times with
  | nil => exact ⟨0, (List.append_nil _).symm, holds⟩
  | cons call rest inductionHypothesis =>
      have state := state_runOn_attach made call.1 call.2
      have first := step call List.mem_cons_self _ _ holds
      have alsoMade : id < ((attach (some id) call.1 call.2).runOn work).2.net.store.size := by
        rw [size_runOn_attach]
        exact made
      rw [← state] at first
      obtain ⟨more, log, later⟩ :=
        inductionHypothesis alsoMade (fun call member => step call (List.mem_cons_of_mem _ member)) first
      refine ⟨((work.net.state id).mixesWith call.1).toNat + more, ?_, ?_⟩
      · rw [attachAll_cons, log, log_runOn_attach, state, State.number_offered, List.append_assoc,
          List.replicate_append_replicate]
      · rw [attachAll_cons, ← Nat.add_assoc]
        exact later

/-- However transitions are added to a state without any, it is noticed if it mixes. If all positions can be counted to,
then only a state that mixes is noticed, and the flag tells the truth. -/
theorem exists_noticed
    (made : id < work.net.store.size) (empty : (work.net.state id).transitions = [])
    (calls : List (Transition × Option Int)) :
    ∃ times, (attachAll id calls work).log =
        work.log ++ List.replicate times (.mixedTransitions (work.net.state id).number) ∧
      ((attachAll id calls work).net.state id).Watched times ∧
      ((∀ call ∈ calls, call.2.all addressable = true) → calls ≠ [] →
        ((attachAll id calls work).net.state id).Told times) := by
  cases calls with
  | nil =>
      have start : (work.net.state id).Watched 0 := State.watched_of_nil empty
      exact ⟨0, (List.append_nil _).symm, start, fun _ nonempty => absurd rfl nonempty⟩
  | cons call rest =>
      -- The first call fills the state, and the others keep it filled.
      have step : ∀ other ∈ rest, ∀ (s : State) times,
          s.Attended (∀ other ∈ call :: rest, other.2.all addressable = true) times →
            (s.offered other.1 other.2).Attended (∀ other ∈ call :: rest, other.2.all addressable = true)
              (times + (s.mixesWith other.1).toNat) := by
        intro other member s times attended
        exact attended.offered fun proper => proper other (List.mem_cons_of_mem call member)
      have first : ((work.net.state id).offered call.1 call.2).Attended
          (∀ other ∈ call :: rest, other.2.all addressable = true) 0 :=
        State.attended_of_nil empty fun proper => proper call List.mem_cons_self
      have quiet := log_runOn_attach id call.1 call.2 work
      rw [State.mixesWith_of_nil empty] at quiet
      have alsoMade : id < ((attach (some id) call.1 call.2).runOn work).2.net.store.size := by
        rw [size_runOn_attach]
        exact made
      rw [← state_runOn_attach made] at first
      obtain ⟨more, log, attended⟩ := attachAll_invariant alsoMade step first
      rw [Nat.zero_add] at attended
      rw [attachAll_cons]
      refine ⟨more, ?_, attended.watched, fun proper _ => attended.told proper⟩
      rw [log, quiet, state_runOn_attach made, State.number_offered]
      exact congrArg (· ++ _) (List.append_nil work.log)

end Calls

end Construction

end GrammarNet
