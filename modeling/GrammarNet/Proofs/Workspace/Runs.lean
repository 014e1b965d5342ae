import GrammarNet.Workspace

/-!
# Running actions

What an action does when it is run on a workspace, one equation for each way of making an action.
-/

namespace GrammarNet

namespace NetM

section Runs

variable {α β : Type} (work : Workspace)

@[simp]
theorem runOn_bind (action : NetM α) (next : α → NetM β) :
    (action >>= next).runOn work =
      match action.runOn work with
      | (.ok a, later) => (next a).runOn later
      | (.error fault, later) => (.error fault, later) := by
  show StateT.bind action.run (ExceptT.bindCont next) work = _
  unfold StateT.bind runOn StateT.run
  show (match action.run work with | (a, later) => ExceptT.bindCont next a later) = _
  rcases action.run work with ⟨_ | _, _⟩ <;> rfl

@[simp]
theorem runOn_pure (a : α) : (pure a : NetM α).runOn work = (.ok a, work) := rfl

@[simp]
theorem runOn_throw (fault : Fault) : (throw fault : NetM α).runOn work = (.error fault, work) := rfl

@[simp]
theorem runOn_lift (outcome : Except Fault α) : (liftM outcome : NetM α).runOn work = (outcome, work) := by
  cases outcome <;> rfl

@[simp]
theorem runOn_network : network.runOn work = (.ok work.net, work) := rfl

@[simp]
theorem runOn_change (f : Network → Network) :
    (change f).runOn work = (.ok (), { work with net := f work.net }) := rfl

@[simp]
theorem runOn_report (event : Event) :
    (report event).runOn work = (.ok (), { work with log := work.log ++ [event] }) := rfl

/-- What becomes of the value of an action changes neither its fault nor the workspace that it leaves behind. -/
theorem runOn_bind_pure (action : NetM α) (f : α → β) :
    (action >>= fun a => pure (f a)).runOn work = ((action.runOn work).1.map f, (action.runOn work).2) := by
  rw [runOn_bind]
  rcases action.runOn work with ⟨_ | _, _⟩ <;> rfl

/-- Actions in sequence relate the networks before and after them in a transitive way if the first one does, and the next
one does on what the first one leaves behind. -/
theorem runOn_bind_related
    {R : Network → Network → Prop} (trans : ∀ {net later last}, R net later → R later last → R net last)
    {work : Workspace} {action : NetM α} {next : α → NetM β} (first : R work.net (action.runOn work).2.net)
    (later : ∀ a, (action.runOn work).1 = .ok a →
      R (action.runOn work).2.net ((next a).runOn (action.runOn work).2).2.net) :
    R work.net ((action >>= next).runOn work).2.net := by
  rw [runOn_bind]
  generalize action.runOn work = left at first later
  obtain ⟨outcome, after⟩ := left
  cases outcome with
  | error fault => exact first
  | ok a => exact trans first (later a rfl)

end Runs

end NetM

end GrammarNet
