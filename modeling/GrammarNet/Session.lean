import GrammarNet.Construction
import GrammarNet.Lookahead
import GrammarNet.RangeSet.Edit

/-!
# Sessions

A session works on one network and keeps symbol sets under names. A name can stand for the very set that labels a
transition; then an edit under the name shows in the label, and in every other label and name that shares the set.
-/

namespace GrammarNet

/-- A network at work with named sets. A name without a label stands for the label of a transition that has none.
Sets that are shared are told apart by numbers below `nextShare`. -/
structure Session where
  work : Workspace
  names : List (String × Option Label) := []
  nextShare : Nat := 0

/-- An action on a session. -/
abbrev SessionM := ExceptT Fault (StateM Session)

namespace Session

/-- Does something to the network of a session. -/
def onNetwork {α : Type} (action : NetM α) : SessionM α := do
  let (result, work) := action.runOn (← get).work
  modify fun session => { session with work := work }
  match result with
  | .ok value => return value
  | .error fault => throw fault

/-! ## Names -/

/-- What a name stands for. -/
def entry (name : String) : SessionM (Option Label) := do
  match (← get).names.lookup name with
  | some label => return label
  | none => throw .unknownSet

/-- The set that a name stands for. -/
def named (name : String) : SessionM Label := do
  match ← entry name with
  | some label => return label
  | none => throw .noAttribute

/-- Lets a name stand for something. -/
def assign (name : String) (label : Option Label) : SessionM Unit :=
  modify fun session =>
    { session with names := (name, label) :: session.names.filter (·.1 != name) }

/-- Keeps a set under a name, if a name is given. -/
def keep (name : Option String) (set : RangeSet) : SessionM Unit :=
  match name with
  | some name => assign name (some { set := set })
  | none => return ()

/-! ## Shared labels -/

/-- A label with the number that tells it from other shared sets. -/
def tagged (label : Label) : SessionM Label := do
  match label.shared with
  | some _ => return label
  | none =>
      let share := (← get).nextShare
      modify fun session => { session with nextShare := share + 1 }
      return { label with shared := some share }

/-- The label under a name, made ready to be shared with a transition. -/
def shareNamed (name : String) : SessionM (Option Label) := do
  match ← entry name with
  | none => return none
  | some label =>
      let label ← tagged label
      assign name (some label)
      return some label

/-- Lets a name stand for the label of a transition of a state. -/
def shareLabel (name : String) (state : Option StateId) (index : Int) : SessionM (Option Label) := do
  let id ← required state
  let transitions := ((← get).work.net.state id).transitions
  match position? transitions.length index with
  | none => throw .outOfRange
  | some place =>
      match (transitions[place]?).bind (·.kind.label?) with
      | none =>
          assign name none
          return none
      | some label =>
          let label ← tagged label
          onNetwork (NetM.change (·.modify id fun s =>
            { s with transitions := s.transitions.modify place (·.mapLabel fun _ => label) }))
          assign name (some label)
          return some label

/-- The label with another set, if it is the shared set with the given number. -/
def refresh (share : Nat) (set : RangeSet) (label : Label) : Label :=
  if label.shared = some share then { label with set := set } else label

/-- Stores the edited set of a name: there, and wherever the set is shared. -/
def store (name : String) (label : Label) : SessionM Unit := do
  assign name (some label)
  if let some share := label.shared then
    let renew := refresh share label.set
    modify fun session =>
      { session with names := session.names.map fun (other, kept) => (other, kept.map renew) }
    onNetwork (NetM.change fun net =>
      { net with
        store := net.store.map fun s =>
          { s with transitions := s.transitions.map (·.mapLabel renew) } })

/-! ## Commands on sets -/

/-- Edits the set that a name stands for. An edit that fails keeps what it has changed. -/
def edit (name : String) (edit : Edit) : SessionM RangeSet := do
  let label ← named name
  let (edited, outcome) := edit.apply label.set
  store name { label with set := edited }
  outcome
  return edited

/-- Whether two labels are the same shared set. -/
def sameShare (first second : Label) : Bool :=
  match first.shared, second.shared with
  | some share, some other => share == other
  | _, _ => false

/-- Adds the set of another name. Two names for the same set add the set to itself. -/
def union (name other : String) : SessionM RangeSet := do
  let label ← named name
  let added ← entry other
  if name == other || added.any (sameShare label) then edit name .unionSelf
  else edit name (.union (added.map Label.set))

/-- Tells which symbols are in the set that a name stands for. -/
def contains (name : String) (symbols : List Symbol) : SessionM (List Bool) := do
  match ← entry name, symbols with
  | some label, _ => return symbols.map label.set.contains
  | none, [] => return []
  | none, _ :: _ => throw .noSet

/-- Lets a name stand for a frozen copy of the set of another name, or of a set that was never filled. -/
def freeze (name : String) (other : Option String) : SessionM RangeSet := do
  let copied ←
    match other with
    | some other => entry other
    | none => pure none
  let frozen := ((copied.map Label.set).getD .empty).freeze
  assign name (some { set := frozen })
  return frozen

/-- Lets a name stand for the set that arises from ranges added in their order. -/
def create (name : String) (ranges : List Range) : SessionM RangeSet := do
  let made := RangeSet.ofRanges ranges
  assign name (some { set := made })
  return made

/-- The complement of the set of a name within an interval, kept under another name if one is given. -/
def complement (name : String) (first last : Int) (target : Option String) : SessionM RangeSet := do
  let label ← named name
  let rest ← label.set.complement first last
  keep target rest
  return rest

/-! ## Commands on the network -/

/-- Adds a transition that is labelled with the set of a name itself, or with its absence. A set without ranges is
replaced and not shared. -/
def connectNamed (source target : Option StateId) (negated : Bool) (name : Option String)
    (position : Option Int) : SessionM Transition := do
  let label ←
    match name with
    | some name => shareNamed name
    | none => pure none
  let set := Label.ofSet label
  onNetwork (Construction.connect source target (if negated then .notSet set else .set set) position)

/-- Asks a question, and keeps the set that answers it under a name if one is given. -/
def ask (query : Lookahead.Query) (target : Option String) : SessionM Lookahead.Answer := do
  let answer ← onNetwork query.ask
  if let .set found := answer then
    keep target found
  return answer

end Session

end GrammarNet
