import GrammarNet.Search.Basic

/-!
# Networks as pushdown automata

The plain reading of a network, without any memory of what was visited or entered. A point is a state with the chain of
invocations that led to it. `Move` is one step that consumes nothing: along a transition, into a rule that is invoked,
or back from one. `Emits` tells which symbols a point shows, and `First` which symbols can come first on a finite path.
-/

namespace GrammarNet

/-- The symbols that a transition of this kind consumes or, in the case of a negated set, those of the complement of
its label, in a vocabulary up to `greatest`. -/
def TransitionKind.Yields (kind : TransitionKind) (greatest x : Symbol) : Prop :=
  match kind with
  | .atom _ label | .range _ _ label | .set label => x ∈ label.set
  | .notSet label =>
      Symbol.firstUser ≤ greatest ∧ ∃ rest, label.set.complement Symbol.firstUser greatest = .ok rest ∧ x ∈ rest
  | .wildcard => Symbol.firstUser ≤ x ∧ x ≤ greatest
  | _ => False

/-- Where the rule goes on that a transition of this kind invokes. -/
def TransitionKind.follow? : TransitionKind → Option StateId
  | .rule _ _ follow => follow
  | _ => none

/-- Whether a transition of this kind is passed under a condition. -/
def TransitionKind.isPredicate : TransitionKind → Bool
  | .abstractPredicate | .predicate .. | .precedence .. => true
  | _ => false

/-- Whether a transition of this kind is passed without consuming a symbol and without invoking a rule. -/
def SearchMode.Passes (mode : SearchMode) (kind : TransitionKind) : Prop :=
  kind.isEpsilon = true ∧ kind.isRule = false ∧ (kind.isPredicate = true → mode.throughPredicates = true)

/-- A state, and the invocations that led to it. -/
structure Point where
  state : StateId
  stack : CallStack
  deriving DecidableEq

namespace Network

/-! ## Where paths end -/

/-- Paths that reach the state leave its rule, or the part of the network that is looked at. -/
def Leaves (net : Network) (mode : SearchMode) (id : StateId) : Prop :=
  mode.stop = some id ∨ (net.state id).isRuleStop = true

/-- Paths end at the point, and `mark` says so: with nothing known about the callers, or with none left. -/
def Halts (net : Network) (mode : SearchMode) : Point → Symbol → Prop
  | ⟨id, []⟩, mark => net.Leaves mode id ∧ mark = Symbol.epsilon
  | ⟨id, link :: _⟩, mark =>
      net.Leaves mode id ∧ link < 0 ∧ mode.marksEnd = true ∧ mark = Symbol.endOfInput

/-- Paths go on along the transitions of the state. -/
def Passable (net : Network) (mode : SearchMode) : Point → Prop
  | ⟨id, []⟩ => ¬ net.Leaves mode id
  | ⟨id, link :: _⟩ =>
      if 0 ≤ link then (net.state id).isRuleStop = false
      else ¬ (net.Leaves mode id ∧ mode.marksEnd = true)

/-- The rule that was invoked in the state in slot `link` returns to `next`. -/
def ReturnsTo (net : Network) (link : Int) (next : StateId) : Prop :=
  ∃ invoker, net.slot? link = some invoker ∧
    ∃ t ∈ (net.state invoker).transitions, t.kind.follow? = some next

/-! ## Moves -/

/-- One step that consumes nothing. -/
inductive Move (net : Network) (mode : SearchMode) : Point → Point → Prop
  | pass {p : Point} {t : Transition} (passable : net.Passable mode p)
      (member : t ∈ (net.state p.state).transitions) (passes : mode.Passes t.kind) :
      Move net mode p ⟨t.target, p.stack⟩
  | enter {p : Point} {t : Transition} (passable : net.Passable mode p)
      (member : t ∈ (net.state p.state).transitions) (invokes : t.isRule = true) :
      Move net mode p ⟨t.target, p.stack.push (net.state p.state).number⟩
  | leave {id next : StateId} {link : Int} {outer : CallStack} (stops : (net.state id).isRuleStop = true)
      (invoked : 0 ≤ link) (returns : net.ReturnsTo link next) :
      Move net mode ⟨id, link :: outer⟩ ⟨next, outer⟩

/-- A path of `steps` moves. -/
inductive Path (net : Network) (mode : SearchMode) : Nat → Point → Point → Prop
  | here (p : Point) : Path net mode 0 p p
  | step {steps : Nat} {p q r : Point} (move : net.Move mode p q) (rest : Path net mode steps q r) :
      Path net mode (steps + 1) p r

/-- Some finite path leads from one point to the other. -/
def Reaches (net : Network) (mode : SearchMode) (p q : Point) : Prop := ∃ steps, net.Path mode steps p q

/-! ## Symbols -/

/-- A point shows a symbol: the mark of the end, a symbol of a consuming transition, or the mark of a predicate that
is not passed. -/
inductive Emits (net : Network) (mode : SearchMode) : Point → Symbol → Prop
  | halt {p : Point} {mark : Symbol} (halts : net.Halts mode p mark) : Emits net mode p mark
  | consume {p : Point} {t : Transition} {x : Symbol} (passable : net.Passable mode p)
      (member : t ∈ (net.state p.state).transitions) (yields : t.kind.Yields net.maxSymbol x) :
      Emits net mode p x
  | hit {p : Point} {t : Transition} (passable : net.Passable mode p)
      (member : t ∈ (net.state p.state).transitions) (predicate : t.kind.isPredicate = true)
      (blocked : mode.throughPredicates = false) : Emits net mode p Symbol.invalid

/-- The symbol can come first: some finite path leads to a point that shows it. -/
def First (net : Network) (mode : SearchMode) (p : Point) (x : Symbol) : Prop :=
  ∃ steps q, net.Path mode steps p q ∧ net.Emits mode q x

/-- The path comes to the stop of a rule that no state in slot `link` has invoked. -/
def Fails (net : Network) (p : Point) (fault : Fault) : Prop :=
  ∃ link outer, p.stack = link :: outer ∧ 0 ≤ link ∧ (net.state p.state).isRuleStop = true ∧
    net.followState link = .error fault

/-! ## Paths -/

section Paths

variable {net : Network} {mode : SearchMode} {p q r : Point} {steps more : Nat}

theorem Path.trans (first : net.Path mode steps p q) (second : net.Path mode more q r) :
    net.Path mode (steps + more) p r := by
  induction first with
  | here p => simpa using second
  | step move _ inductionHypothesis =>
      rw [Nat.succ_add]
      exact .step move (inductionHypothesis second)

theorem Reaches.refl (p : Point) : net.Reaches mode p p := ⟨0, .here p⟩

theorem Reaches.trans (first : net.Reaches mode p q) (second : net.Reaches mode q r) : net.Reaches mode p r := by
  obtain ⟨steps, first⟩ := first
  obtain ⟨more, second⟩ := second
  exact ⟨steps + more, first.trans second⟩

theorem Reaches.append (reaches : net.Reaches mode p q) (move : net.Move mode q r) : net.Reaches mode p r :=
  reaches.trans ⟨1, .step move (.here r)⟩

/-- What every move preserves holds wherever a path leads. -/
theorem Reaches.invariant
    {P : Point → Prop} (keeps : ∀ {p q : Point}, P p → net.Move mode p q → P q)
    (reaches : net.Reaches mode p q) (holds : P p) : P q := by
  obtain ⟨steps, path⟩ := reaches
  induction path with
  | here p => exact holds
  | step move _ inductionHypothesis => exact inductionHypothesis (keeps holds move)

theorem First.of_reaches {x : Symbol} (reaches : net.Reaches mode p q) (first : net.First mode q x) :
    net.First mode p x := by
  obtain ⟨steps, path⟩ := reaches
  obtain ⟨more, r, later, emits⟩ := first
  exact ⟨steps + more, r, path.trans later, emits⟩

end Paths

/-! ## A point by its innermost link -/

section Innermost

variable {net : Network} {mode : SearchMode} {id : StateId} {link : Int} {outer : CallStack} {mark : Symbol}

theorem passable_unknown_iff : net.Passable mode ⟨id, []⟩ ↔ ¬ net.Leaves mode id := Iff.rfl

theorem passable_invoked_iff (invoked : 0 ≤ link) :
    net.Passable mode ⟨id, link :: outer⟩ ↔ (net.state id).isRuleStop = false := by
  simp only [Passable, invoked, if_true]

theorem not_passable_invoked (invoked : 0 ≤ link) (stops : (net.state id).isRuleStop = true) :
    ¬ net.Passable mode ⟨id, link :: outer⟩ := by
  intro passable
  have goesOn := (passable_invoked_iff invoked).mp passable
  exact Bool.noConfusion (stops.symm.trans goesOn)

theorem not_halts_invoked (invoked : 0 ≤ link) : ¬ net.Halts mode ⟨id, link :: outer⟩ mark := by
  rintro ⟨_, negative, _⟩
  omega

theorem passable_root_iff (negative : link < 0) :
    net.Passable mode ⟨id, link :: outer⟩ ↔ ¬ (net.Leaves mode id ∧ mode.marksEnd = true) := by
  simp only [Passable, Int.not_le.mpr negative, if_false]

end Innermost

end Network

end GrammarNet
