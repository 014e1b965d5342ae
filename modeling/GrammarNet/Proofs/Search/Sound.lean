import GrammarNet.Proofs.Pushdown.Labels
import GrammarNet.Proofs.Search.Ends
import GrammarNet.Proofs.Search.Moves

/-!
# Searches find only what can come first

Whatever is pending in a search lies on a path from where the search began, and whatever it has found can come first
on such a path. This holds with or without the memory of a search, since that only ever drops tasks.
-/

namespace GrammarNet

/-- A task lies on a path from `origin`: it visits a point on the path, or brings symbols that can come first. -/
def Task.Sound (net : Network) (mode : SearchMode) (P : Range → Prop) (origin : Point) : Task → Prop
  | .visit config =>
      ∃ id, config.state = some id ∧ id ∈ net.listed ∧ net.Reaches mode origin ⟨id, config.stack⟩
  | .report x => Symbol.epsilon ≤ x ∧ net.First mode origin x
  | .consume kind =>
      kind.Labelled P net.maxSymbol ∧ ∀ x, kind.Yields net.maxSymbol x → net.First mode origin x

namespace Search

/-- All pending tasks lie on paths from `origin`, and what was found can come first on such a path. -/
structure Sound (net : Network) (mode : SearchMode) (P : Range → Prop) (origin : Point) (search : Search) : Prop where
  tasks : ∀ task ∈ search.pending, task.Sound net mode P origin
  kept : search.found.Kept P
  found : ∀ x ∈ search.found, net.First mode origin x

section Sound

variable {net : Network} {mode : SearchMode} {P : Range → Prop} {origin : Point} {id : StateId} {config : Config}
  {task : Task} {x : Symbol}

theorem epsilon_le_of_leads (leads : Leads net mode id config (.report x)) : Symbol.epsilon ≤ x := by
  cases leads with
  | halted halts =>
      obtain ⟨state, stack, entered⟩ := config
      cases stack with
      | nil => exact Int.le_of_eq halts.2.symm
      | cons link outer =>
          rw [halts.2.2.2]
          decide
  | followed passable member followed =>
      cases followed with
      | hit predicate blocked => decide

theorem Leads.sound
    (shape : net.WellFormed) (labelled : net.Labelled P) (listed : id ∈ net.listed)
    (reaches : net.Reaches mode origin ⟨id, config.stack⟩) (leads : Leads net mode id config task) :
    task.Sound net mode P origin := by
  cases task with
  | visit next =>
      obtain ⟨target, state, move⟩ := leads.move shape
      exact ⟨target, state, (shape.inside_of_move listed move).1, reaches.append move⟩
  | report x =>
      exact ⟨epsilon_le_of_leads leads, .of_reaches reaches ⟨0, _, .here _, leads.emits⟩⟩
  | consume kind =>
      obtain ⟨passable, t, member, same⟩ := leads.transition
      subst same
      refine ⟨labelled id listed t member, fun x yields => ?_⟩
      exact .of_reaches reaches ⟨0, _, .here _, .consume passable member yields⟩

theorem sound_start {start : StateId} {stack : CallStack} (listed : start ∈ net.listed) :
    Sound net mode P ⟨start, stack⟩ (Search.start (some start) stack) where
  tasks := by
    intro task member
    rw [List.mem_singleton.mp member]
    exact ⟨start, rfl, listed, .refl _⟩
  kept := .empty
  found := fun x member => absurd member (RangeSet.not_mem_empty x)

/-- What a task leaves behind is sound if the search was. -/
theorem Sound.performed
    (shape : net.WellFormed) (admits : Admits P) (labelled : net.Labelled P) {search next : Search}
    {rest : List Task} (sound : search.Sound net mode P origin) (pending : search.pending = task :: rest)
    (performed : Performed net mode search rest task next) : next.Sound net mode P origin := by
  have here : task.Sound net mode P origin := sound.tasks task (pending ▸ List.mem_cons_self)
  have later : ∀ other ∈ rest, other.Sound net mode P origin := fun other member =>
    sound.tasks other (pending ▸ List.mem_cons_of_mem task member)
  cases performed with
  | reported x =>
      have upright : P (Range.single x) := admits.mark here.1
      refine ⟨later, sound.kept.insertRange admits upright, fun y member => ?_⟩
      rcases sound.kept.ascending.mem_insert.mp member with rfl | old
      · exact here.2
      · exact sound.found y old
  | @consumed kind offer offered =>
      obtain ⟨ranges, yields⟩ := TransitionKind.Labelled.of_offer admits here.1 offered
      refine ⟨later, sound.kept.union admits ranges, fun y member => ?_⟩
      rcases (sound.kept.ascending.mem_union fun r inside => admits.upright (ranges r inside)).mp member with
        old | new
      · exact sound.found y old
      · exact here.2 y ((yields y).mp new)
  | passed => exact ⟨later, sound.kept, sound.found⟩
  | @expanded config id tasks state fresh expanded =>
      obtain ⟨same, sameState, listed, reaches⟩ := here
      rw [state] at sameState
      obtain rfl := Option.some.inj sameState
      refine ⟨fun other member => ?_, sound.kept, sound.found⟩
      rcases List.mem_append.mp member with child | old
      · exact Leads.sound shape labelled listed reaches ((mem_expand_iff expanded).mp child)
      · exact later other old

/-- A fault of a sound search is one of a path: nothing else in it can fail. -/
theorem Sound.fails
    (admits : Admits P) {search : Search} {rest : List Task} {fault : Fault}
    (sound : search.Sound net mode P origin) (pending : search.pending = task :: rest)
    (refused : Refused net mode task fault) : ∃ p, net.Reaches mode origin p ∧ net.Fails p fault := by
  have here : task.Sound net mode P origin := sound.tasks task (pending ▸ List.mem_cons_self)
  cases refused with
  | consumed refused =>
      obtain ⟨given, eq, _⟩ := TransitionKind.offer_of_labelled admits here.1
      rw [refused] at eq
      contradiction
  | nowhere state =>
      obtain ⟨id, some, _⟩ := here
      rw [state] at some
      contradiction
  | @expanded config id fault state refused =>
      obtain ⟨same, sameState, _, reaches⟩ := here
      rw [state] at sameState
      obtain rfl := Option.some.inj sameState
      exact ⟨_, reaches, expand_error_iff.mp refused⟩

end Sound

end Search

end GrammarNet
