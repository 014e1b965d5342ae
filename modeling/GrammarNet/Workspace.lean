import GrammarNet.Event

/-!
# Actions on a network

An action may change a network, log events, and fail. What it changed and logged before failing stays.
-/

namespace GrammarNet

/-- A network at work, and the events logged so far, the earliest first. -/
structure Workspace where
  net : Network
  log : List Event := []

/-- An action on a network that yields a value or a fault. -/
abbrev NetM := ExceptT Fault (StateM Workspace)

namespace NetM

/-- The network as it is now. -/
def network : NetM Network := do
  return (← get).net

/-- Changes the network. -/
def change (f : Network → Network) : NetM Unit :=
  modify fun work => { work with net := f work.net }

/-- Logs an event. -/
def report (event : Event) : NetM Unit :=
  modify fun work => { work with log := work.log ++ [event] }

/-- Runs an action on a workspace: its result, and the workspace that it leaves behind. -/
def runOn {α : Type} (action : NetM α) (work : Workspace) : Except Fault α × Workspace :=
  StateT.run (ExceptT.run action) work

end NetM

end GrammarNet
