import GrammarNet.Search.Bound

/-!
# Running a search

A search runs until nothing is pending. It always ends, because each task done leaves a key less to visit or a task
less to do.
-/

namespace GrammarNet

namespace Search

/-- Does the pending tasks of a search within bounds, one after the other, up to the end or the first fault. -/
def run (net : Network) (mode : SearchMode) (base : CallStack) (search : Search)
    (within : search.Within net base) : Except Fault RangeSet :=
  match pending : search.pending with
  | [] => .ok search.found
  | task :: rest =>
      match performed : perform net mode search task rest with
      | .error fault => .error fault
      | .ok next => run net mode base next (perform_progress pending within performed).1
termination_by (unvisited net base search.visited, search.pending.length)
decreasing_by
  exact (perform_progress pending within performed).2

section Run

variable {net : Network} {mode : SearchMode} {base : CallStack} {search : Search}

/-- A search without pending tasks yields what it has found. -/
theorem run_of_nil
    (within : search.Within net base) (done : search.pending = []) :
    search.run net mode base within = .ok search.found := by
  rw [run]
  split
  · rfl
  · rename_i task rest pending
    rw [done] at pending
    contradiction

/-- A fault of the first pending task ends the search. -/
theorem run_of_error
    (within : search.Within net base) {task : Task} {rest : List Task} {fault : Fault}
    (pending : search.pending = task :: rest)
    (performed : perform net mode search task rest = .error fault) :
    search.run net mode base within = .error fault := by
  rw [run]
  split
  · rename_i done
    rw [done] at pending
    contradiction
  · rename_i first later firstPending
    obtain ⟨rfl, rfl⟩ := List.cons.inj (firstPending.symm.trans pending)
    split
    · rename_i failed
      rw [Except.error.inj (failed.symm.trans performed)]
    · rename_i succeeded
      rw [performed] at succeeded
      contradiction

/-- After its first pending task, a search goes on with what the task made of it. -/
theorem run_of_ok
    (within : search.Within net base) {task : Task} {rest : List Task} {next : Search}
    (pending : search.pending = task :: rest)
    (performed : perform net mode search task rest = .ok next) :
    search.run net mode base within =
      next.run net mode base (perform_progress pending within performed).1 := by
  rw [run]
  split
  · rename_i done
    rw [done] at pending
    contradiction
  · rename_i first later firstPending
    obtain ⟨rfl, rfl⟩ := List.cons.inj (firstPending.symm.trans pending)
    split
    · rename_i failed
      rw [performed] at failed
      contradiction
    · rename_i reached succeeded
      have same : reached = next := Except.ok.inj (succeeded.symm.trans performed)
      subst same
      rfl

end Run

end Search

/-- The symbols that can come next from a state under a chain of callers. Where paths end, the set holds the epsilon
mark if the callers are unknown, and the end of the input if nothing called the outermost rule and `mode` marks it. -/
def Network.lookahead (net : Network) (mode : SearchMode) (state : Option StateId) (stack : CallStack) :
    Except Fault RangeSet :=
  (Search.start state stack).run net mode stack (Search.start_within net state stack)

end GrammarNet
