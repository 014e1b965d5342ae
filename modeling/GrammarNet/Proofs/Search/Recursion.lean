import Mathlib.Data.Finset.Basic
import GrammarNet.Proofs.Search.Moves

/-!
# The search as a recursion with shared sets

The closure search again, as a procedure that calls itself. All its calls share one set of visited keys, one set of called
rules and what was found: a rule is added before it is entered and removed behind that call, and it is discarded before a
return and added again behind it, however the call in between ends. `Search` has a list of entered rules for each
configuration instead.
-/

namespace GrammarNet

/-- A call of the procedure, for a state under a chain. `pushed` follows the chain and decides nothing: it has the links that
the calls down to this one have pushed and not popped, the innermost first, each with the rule that was entered there. -/
structure Call where
  state : Option StateId
  stack : CallStack
  pushed : List (Int × Int) := []

/-- What the calls share, and a record of the calls made so far, each with the called rules that it found. -/
structure Shared where
  visited : Std.HashSet VisitKey := ∅
  called : Finset Int := ∅
  found : RangeSet := .empty
  made : List (Call × Finset Int) := []

/-- Why a call ends early: a fault, a rule to be removed that is not among the called ones, or calls that are nested too
deeply. -/
inductive Abort where
  | fault (fault : Fault)
  | notCalled (rule : Int)
  | tooDeep

/-- An action on what calls share. What it changed before it ended early stays. -/
abbrev SharedM := ExceptT Abort (StateM Shared)

namespace SharedM

/-- Runs an action: how it ends, and what it leaves behind. -/
def runOn {α : Type} (action : SharedM α) (shared : Shared) : Except Abort α × Shared :=
  StateT.run (ExceptT.run action) shared

/-! ## Actions -/

/-- What is shared as it is now. -/
def shared : SharedM Shared := get

/-- Changes what is shared. -/
def change (f : Shared → Shared) : SharedM Unit := modify f

/-- Passes a fault on. -/
def pass {α : Type} : Except Fault α → SharedM α
  | .ok a => return a
  | .error fault => throw (.fault fault)

/-- Adds symbols to what was found. -/
def find (f : RangeSet → RangeSet) : SharedM Unit := change fun shared => { shared with found := f shared.found }

/-- Adds a rule to the called ones. -/
def add (rule : Int) : SharedM Unit := change fun shared => { shared with called := insert rule shared.called }

/-- Takes a rule out of the called ones if it is there. -/
def discard (rule : Int) : SharedM Unit := change fun shared => { shared with called := shared.called.erase rule }

/-- Takes a rule out of the called ones, among which it has to be. -/
def remove (rule : Int) : SharedM Unit := do
  if rule ∈ (← shared).called then discard rule
  else throw (.notCalled rule)

end SharedM

namespace Search

open SharedM

/-! ## The procedure -/

/-- Goes along a transition in a call; `recurse` makes the calls that this leads to. -/
def along (net : Network) (mode : SearchMode) (recurse : Call → SharedM Unit) (s : State) (call : Call)
    (t : Transition) : SharedM Unit :=
  match t.kind with
  | .rule .. => do
      let callee := (net.state t.target).rule
      if callee ∈ (← shared).called then return
      try
        add callee
        recurse ⟨some t.target, call.stack.push s.number, (s.number, callee) :: call.pushed⟩
      finally
        remove callee
  | .abstractPredicate | .predicate .. | .precedence .. =>
      if mode.throughPredicates then recurse { call with state := some t.target }
      else find (·.insert Symbol.invalid)
  | .epsilon .. | .action .. => recurse { call with state := some t.target }
  | kind => do
      let offer ← pass (kind.offer net.maxSymbol)
      find (·.union offer)

/-- Pops the innermost link in a call at the stop of a rule. -/
def back (net : Network) (recurse : Call → SharedM Unit) (s : State) (call : Call) (link : Int) (outer : CallStack) :
    SharedM Unit := do
  let removed := decide (s.rule ∈ (← shared).called)
  try
    discard s.rule
    let next ← pass (net.followState link)
    recurse ⟨next, outer, call.pushed.tail⟩
  finally
    if removed then add s.rule

/-- What a call does that has not been made before. -/
def body (net : Network) (mode : SearchMode) (recurse : Call → SharedM Unit) (id : StateId) (call : Call) :
    SharedM Unit :=
  let s := net.state id
  let ends := mode.stop = some id ∨ s.isRuleStop = true
  match call.stack with
  | [] =>
      if ends then find (·.insert Symbol.epsilon)
      else s.transitions.forM (along net mode recurse s call)
  | link :: outer =>
      if ends ∧ link < 0 ∧ mode.marksEnd = true then find (·.insert Symbol.endOfInput)
      else if s.isRuleStop = true ∧ 0 ≤ link then back net recurse s call link outer
      else s.transitions.forM (along net mode recurse s call)

/-- Makes a call, unless its key was visited. -/
def enter (net : Network) (mode : SearchMode) (recurse : Call → SharedM Unit) (call : Call) : SharedM Unit := do
  change fun shared => { shared with made := shared.made ++ [(call, shared.called)] }
  let id ← pass (required call.state)
  let key : VisitKey := ((net.state id).number, call.stack)
  if key ∈ (← shared).visited then return
  change fun shared => { shared with visited := shared.visited.insert key }
  body net mode recurse id call

/-- Makes a call in which calls are nested up to a given depth. -/
def descend (net : Network) (mode : SearchMode) : Nat → Call → SharedM Unit
  | 0, _ => throw .tooDeep
  | depth + 1, call => enter net mode (descend net mode depth) call

end Search

/-! ## Running the actions -/

namespace SharedM

section Runs

variable {α β : Type} (now : Shared)

@[simp]
theorem runOn_bind (action : SharedM α) (next : α → SharedM β) :
    (action >>= next).runOn now =
      match action.runOn now with
      | (.ok a, later) => (next a).runOn later
      | (.error abort, later) => (.error abort, later) := by
  show StateT.bind action.run (ExceptT.bindCont next) now = _
  unfold StateT.bind runOn StateT.run
  show (match action.run now with | (a, later) => ExceptT.bindCont next a later) = _
  rcases action.run now with ⟨_ | _, _⟩ <;> rfl

/-- The last action runs in any case; if it ends early, so does the whole. -/
@[simp]
theorem runOn_finally (action : SharedM α) (last : SharedM β) :
    (tryFinally action last).runOn now =
      match action.runOn now with
      | (outcome, later) =>
          match last.runOn later with
          | (.ok _, left) => (outcome, left)
          | (.error abort, left) => (.error abort, left) := by
  unfold runOn ExceptT.run StateT.run
  rcases ran : action now with ⟨outcome, later⟩
  rcases ended : last later with ⟨result, left⟩
  cases outcome <;> cases result <;>
    simp [tryFinally, tryFinally', ExceptT.mk, bind, StateT.bind, Functor.map, ExceptT.map, ran, ended] <;> rfl

@[simp]
theorem runOn_pure (a : α) : (pure a : SharedM α).runOn now = (.ok a, now) := rfl

@[simp]
theorem runOn_throw (abort : Abort) : (throw abort : SharedM α).runOn now = (.error abort, now) := rfl

@[simp]
theorem runOn_shared : shared.runOn now = (.ok now, now) := rfl

@[simp]
theorem runOn_change (f : Shared → Shared) : (change f).runOn now = (.ok (), f now) := rfl

@[simp]
theorem runOn_pass (outcome : Except Fault α) : (pass outcome).runOn now = (outcome.mapError .fault, now) := by
  cases outcome <;> rfl

@[simp]
theorem runOn_add (rule : Int) :
    (add rule).runOn now = (.ok (), { now with called := insert rule now.called }) := rfl

@[simp]
theorem runOn_discard (rule : Int) :
    (SharedM.discard rule).runOn now = (.ok (), { now with called := now.called.erase rule }) := rfl

/-- A rule is added again only if it was there. -/
@[simp]
theorem runOn_addAgain (rule : Int) (removed : Bool) :
    (if removed = true then add rule else pure ()).runOn now =
      (.ok (), { now with called := if removed = true then insert rule now.called else now.called }) := by
  cases removed <;> rfl

variable {now} in
theorem runOn_remove {rule : Int} (there : rule ∈ now.called) :
    (remove rule).runOn now = (.ok (), { now with called := now.called.erase rule }) := by
  simp only [remove, runOn_bind, runOn_shared, there, if_true, runOn_discard]

end Runs

/-! ## What actions keep -/

/-- If the called rules are `called` when the action begins, they are so when it ends, in whichever way; no rule is missing
that was to be removed; and the calls that the action records are as `P` says. -/
def Keeps {α : Type} (P : Call → Finset Int → Prop) (called : Finset Int) (action : SharedM α) : Prop :=
  ∀ now : Shared, now.called = called →
    (action.runOn now).2.called = called ∧ (∀ rule, (action.runOn now).1 ≠ .error (.notCalled rule)) ∧
      ∀ made ∈ (action.runOn now).2.made, made ∈ now.made ∨ P made.1 made.2

section Keeps

variable {α β : Type} {P : Call → Finset Int → Prop} {called : Finset Int} {rule : Int} {action : SharedM α}
  {next : α → SharedM β}

theorem keeps_pure (a : α) : Keeps P called (pure a : SharedM α) :=
  fun _ same => ⟨same, nofun, fun _ => Or.inl⟩

theorem keeps_tooDeep : Keeps P called (throw .tooDeep : SharedM α) :=
  fun _ same => ⟨same, nofun, fun _ => Or.inl⟩

theorem keeps_pass {outcome : Except Fault α} (later : ∀ a, outcome = .ok a → Keeps P called (next a)) :
    Keeps P called (pass outcome >>= next) := by
  intro now same
  rw [runOn_bind, runOn_pass]
  cases outcome with
  | ok a => exact later a rfl now same
  | error fault => exact ⟨same, nofun, fun _ => Or.inl⟩

theorem keeps_change
    {f : Shared → Shared} (stays : ∀ now, (f now).called = now.called)
    (records : ∀ now, now.called = called → ∀ made ∈ (f now).made, made ∈ now.made ∨ P made.1 made.2) :
    Keeps P called (change f) :=
  fun now same => ⟨(stays now).trans same, nofun, records now same⟩

theorem keeps_find (f : RangeSet → RangeSet) : Keeps P called (find f) :=
  keeps_change (fun _ => rfl) fun _ _ _ => Or.inl

theorem Keeps.bind (keeps : Keeps P called action) (later : ∀ a, Keeps P called (next a)) :
    Keeps P called (action >>= next) := by
  intro now same
  obtain ⟨stays, complete, records⟩ := keeps now same
  rw [runOn_bind]
  generalize action.runOn now = ran at stays complete records ⊢
  rcases ran with ⟨abort | a, left⟩
  · refine ⟨stays, fun rule missing => ?_, records⟩
    exact complete rule (congrArg Except.error (Except.error.inj missing))
  · obtain ⟨stays, complete, moreRecords⟩ := later a left stays
    refine ⟨stays, complete, fun made member => ?_⟩
    rcases moreRecords made member with before | new
    · exact records made before
    · exact Or.inr new

theorem keeps_read {next : Shared → SharedM α} (later : ∀ now, now.called = called → Keeps P called (next now)) :
    Keeps P called (shared >>= next) := by
  intro now same
  rw [runOn_bind, runOn_shared]
  exact later now same now same

theorem keeps_forM {items : List β} {next : β → SharedM Unit} (each : ∀ item ∈ items, Keeps P called (next item)) :
    Keeps P called (items.forM next) := by
  induction items with
  | nil => exact keeps_pure ()
  | cons item rest inductionHypothesis =>
      obtain ⟨first, others⟩ := List.forall_mem_cons.mp each
      exact first.bind fun _ => inductionHypothesis others

/-- A rule that was not called is removed behind the action for which it was added. -/
theorem keeps_entered {action : SharedM Unit} (fresh : rule ∉ called) (keeps : Keeps P (insert rule called) action) :
    Keeps P called (tryFinally (do add rule; action) (remove rule)) := by
  intro now same
  obtain ⟨stays, complete, records⟩ := keeps { now with called := insert rule now.called } (by rw [same])
  simp only [runOn_finally, runOn_bind, runOn_add]
  generalize action.runOn { now with called := insert rule now.called } = ran at stays complete records ⊢
  obtain ⟨outcome, left⟩ := ran
  simp only at stays
  have there : rule ∈ left.called := by
    rw [stays]
    exact Finset.mem_insert_self rule called
  have back : left.called.erase rule = called := by
    rw [stays]
    exact Finset.erase_insert fresh
  rw [runOn_remove there]
  exact ⟨back, complete, records⟩

/-- A rule that was discarded is called again behind the action for which it was, if it was called before. -/
theorem keeps_left {action : SharedM Unit} (keeps : Keeps P (called.erase rule) action) :
    Keeps P called (do
      let removed := decide (rule ∈ (← shared).called)
      try
        discard rule
        action
      finally
        if removed then add rule) := by
  apply keeps_read
  rintro before rfl now same
  obtain ⟨stays, complete, records⟩ := keeps { now with called := now.called.erase rule } (by rw [same])
  simp only [runOn_finally, runOn_bind, runOn_discard, runOn_addAgain]
  generalize action.runOn { now with called := now.called.erase rule } = ran at stays complete records ⊢
  obtain ⟨outcome, left⟩ := ran
  simp only at stays
  refine ⟨?_, complete, records⟩
  simp only [stays, decide_eq_true_eq]
  split
  next removed => exact Finset.insert_erase removed
  next absent => exact Finset.erase_eq_of_notMem absent

end Keeps

end SharedM

/-! ## Calls -/

namespace Search

open SharedM

/-- One call makes another, which finds the rules `later` among the called ones if the first one finds `called`. -/
inductive Makes (net : Network) (mode : SearchMode) (call : Call) (called : Finset Int) : Call → Finset Int → Prop
  | passed {id : StateId} {t : Transition} (state : call.state = some id) (passable : net.Passable mode ⟨id, call.stack⟩)
      (member : t ∈ (net.state id).transitions) (passes : mode.Passes t.kind) :
      Makes net mode call called { call with state := some t.target } called
  | entered {id : StateId} {t : Transition} (state : call.state = some id) (passable : net.Passable mode ⟨id, call.stack⟩)
      (member : t ∈ (net.state id).transitions) (invokes : t.isRule = true)
      (fresh : (net.state t.target).rule ∉ called) :
      Makes net mode call called
        ⟨some t.target, call.stack.push (net.state id).number,
          ((net.state id).number, (net.state t.target).rule) :: call.pushed⟩
        (insert (net.state t.target).rule called)
  | returned {id : StateId} {link : Int} {outer : CallStack} {next : Option StateId} (state : call.state = some id)
      (stack : call.stack = link :: outer) (invoked : 0 ≤ link) (stops : (net.state id).isRuleStop = true)
      (followed : net.followState link = .ok next) :
      Makes net mode call called ⟨next, outer, call.pushed.tail⟩ (called.erase (net.state id).rule)

theorem required_eq_ok_iff {state : Option StateId} {id : StateId} : required state = .ok id ↔ state = some id := by
  cases state with
  | none => simp [required]
  | some known => simp [required]

section Body

variable {net : Network} {mode : SearchMode} {recurse : Call → SharedM Unit} {id : StateId} {call : Call}

theorem body_of_halts {mark : Symbol} (halts : net.Halts mode ⟨id, call.stack⟩ mark) :
    body net mode recurse id call = find (·.insert mark) := by
  obtain ⟨state, stack, pushed⟩ := call
  cases stack with
  | nil =>
      obtain ⟨leaves, rfl⟩ := halts
      exact if_pos leaves
  | cons link outer =>
      obtain ⟨leaves, negative, marked, rfl⟩ := halts
      exact if_pos ⟨leaves, negative, marked⟩

theorem body_of_returns
    {link : Int} {outer : CallStack} (stack : call.stack = link :: outer) (invoked : 0 ≤ link)
    (stops : (net.state id).isRuleStop = true) :
    body net mode recurse id call = back net recurse (net.state id) call link outer := by
  have notRoot : ¬ link < 0 := Int.not_lt.mpr invoked
  simp only [body, stack, stops, invoked, notRoot, false_and, and_false, true_and, if_false, if_true]

theorem body_of_passable (passable : net.Passable mode ⟨id, call.stack⟩) :
    body net mode recurse id call = (net.state id).transitions.forM (along net mode recurse (net.state id) call) := by
  obtain ⟨state, stack, pushed⟩ := call
  cases stack with
  | nil => exact if_neg passable
  | cons link outer =>
      by_cases invoked : 0 ≤ link
      · have goesOn := (Network.passable_invoked_iff invoked).mp passable
        simp [body, goesOn, Int.not_lt.mpr invoked]
      · have unmarked := (Network.passable_root_iff (Int.not_le.mp invoked)).mp passable
        have outermost : ¬ ((net.state id).isRuleStop = true ∧ 0 ≤ link) := fun ends => invoked ends.2
        have unended : ¬ ((mode.stop = some id ∨ (net.state id).isRuleStop = true) ∧ link < 0 ∧ mode.marksEnd = true) :=
          fun ends => unmarked ⟨ends.1, ends.2.2⟩
        simp only [body, outermost, unended, if_false]

end Body

section Keeps

variable {net : Network} {mode : SearchMode} {P : Call → Finset Int → Prop} {called : Finset Int} {id : StateId}
  {recurse : Call → SharedM Unit} {call : Call}

theorem keeps_along
    (recurses : ∀ {next later}, Makes net mode call called next later → Keeps P later (recurse next))
    (state : call.state = some id) (passable : net.Passable mode ⟨id, call.stack⟩) {t : Transition}
    (member : t ∈ (net.state id).transitions) :
    Keeps P called (along net mode recurse (net.state id) call t) := by
  have passed : mode.Passes t.kind → Keeps P called (recurse { call with state := some t.target }) := fun passes =>
    recurses (.passed state passable member passes)
  obtain ⟨target, kind⟩ := t
  cases kind with
  | rule index precedence follow =>
      apply keeps_read
      rintro now rfl
      by_cases fresh : (net.state target).rule ∈ now.called
      · simp only [fresh, if_true]
        exact keeps_pure ()
      · simp only [fresh, if_false]
        exact keeps_entered fresh (recurses (.entered state passable member rfl fresh))
  | abstractPredicate | predicate | precedence =>
      simp only [along]
      split
      next through => exact passed ⟨rfl, rfl, fun _ => through⟩
      next => exact keeps_find _
  | epsilon | action => exact passed ⟨rfl, rfl, nofun⟩
  | plain | atom | range | set | notSet | wildcard => exact keeps_pass fun offer _ => keeps_find _

theorem keeps_body
    (recurses : ∀ {next later}, Makes net mode call called next later → Keeps P later (recurse next))
    (state : call.state = some id) : Keeps P called (body net mode recurse id call) := by
  rcases halts_or_returns_or_passable net mode ⟨id, call.stack⟩ with
    ⟨mark, halts⟩ | ⟨link, outer, stack, invoked, stops⟩ | passable
  · rw [body_of_halts halts]
    exact keeps_find _
  · rw [body_of_returns stack invoked stops]
    exact keeps_left (keeps_pass fun next followed => recurses (.returned state stack invoked stops followed))
  · rw [body_of_passable passable]
    exact keeps_forM fun t member => keeps_along recurses state passable member

theorem keeps_enter
    (recurses : ∀ {next later}, Makes net mode call called next later → Keeps P later (recurse next))
    (made : P call called) : Keeps P called (enter net mode recurse call) := by
  apply Keeps.bind
  · apply keeps_change
    · exact fun _ => rfl
    · intro now same entry member
      rcases List.mem_append.mp member with before | new
      · exact Or.inl before
      · rw [List.mem_singleton.mp new, same]
        exact Or.inr made
  · intro _
    apply keeps_pass
    intro id found
    apply keeps_read
    intro now _
    by_cases seen : ((net.state id).number, call.stack) ∈ now.visited
    · simp only [seen, if_true]
      exact keeps_pure ()
    · simp only [seen, if_false]
      apply Keeps.bind
      · exact keeps_change (fun _ => rfl) fun _ _ _ => Or.inl
      · exact fun _ => keeps_body recurses (required_eq_ok_iff.mp found)

/-- What each call passes on to the calls that it makes holds of all calls that are recorded, and every call leaves the
called rules behind as it found them. -/
theorem keeps_descend
    (passesOn : ∀ {call called next later}, P call called → Makes net mode call called next later → P next later)
    (depth : Nat) (made : P call called) : Keeps P called (descend net mode depth call) := by
  induction depth generalizing call called with
  | zero => exact keeps_tooDeep
  | succ depth inductionHypothesis =>
      exact keeps_enter (fun makes => inductionHypothesis (passesOn made makes)) made

end Keeps

end Search

end GrammarNet
