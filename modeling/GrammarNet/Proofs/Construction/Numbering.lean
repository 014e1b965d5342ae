import GrammarNet.Proofs.Construction.Operations

/-!
# Numberings

States are numbered after slots, rules by the places of their starts and stops, and decisions by their places. Whatever
is made, listed, cleared, registered or drawn, each of these numberings stays consistent, and what was numbered or
linked once stays so.
-/

namespace GrammarNet

namespace Construction

/-! ## What stays -/

/-- Where there was a link, it is still there. -/
structure KeepsLinks (a later : Attributes) : Prop where
  endState : ∀ link, a.endState = some (some link) → later.endState = some (some link)
  startState : ∀ link, a.startState = some (some link) → later.startState = some (some link)
  stopState : ∀ link, a.stopState = some (some link) → later.stopState = some (some link)

/-- A number that the state has, and its links, are still there. -/
structure Settled (s later : State) : Prop where
  number : 0 ≤ s.number → later.number = s.number
  links : KeepsLinks s.attributes later.attributes

/-- The state plays the part that it has played, and has the links that it had. -/
structure Steady (s later : State) : Prop where
  kind : later.kind = s.kind
  rule : later.rule = s.rule
  links : KeepsLinks s.attributes later.attributes

/-- The state is steady, and no number of it has changed. -/
structure Still (s later : State) : Prop extends Steady s later where
  number : later.number = s.number
  owned : later.owned = s.owned
  decision : later.attributes.decision = s.attributes.decision

/-- The states that were listed are numbered after slots, each after one of its own. -/
structure Numbered (net : Network) : Prop where
  /-- A slot holds nothing, or a state with its number. -/
  slots : ∀ (slot : Nat) id, net.slots[slot]? = some (some id) →
    id < net.store.size ∧ (net.state id).owned = true ∧ (net.state id).number = slot
  owned : ∀ id, (net.state id).owned = true → 0 ≤ (net.state id).number ∧ (net.state id).number < net.slots.size
  unowned : ∀ id, (net.state id).owned = false → (net.state id).number = -1
  /-- No number is given to two states, not even if the slot of one was cleared. -/
  distinct : ∀ id other, 0 ≤ (net.state id).number → (net.state id).number = (net.state other).number → id = other

/-- The tables of rules go together, and the entries of the tables are the states that they should be. -/
structure Tabled (net : Network) : Prop where
  stops : net.ruleStops.size = net.ruleStarts.size
  symbols : ∀ symbols, net.ruleSymbols = some symbols → symbols.size = net.ruleStarts.size
  /-- A rule has a start and a stop, which were made for it, and the start is linked to the stop. -/
  rules : ∀ rule < net.ruleStarts.size, ∃ start stop, net.Delimits rule start stop ∧ net.Marks .ruleStart rule start ∧
    net.Marks .ruleStop rule stop ∧ (net.state start).attributes.stopState = some (some stop)
  /-- A state in the table of decisions is stamped with its place there. -/
  decisions : ∀ (place : Nat) id, net.decisions[place]? = some (some id) →
    id < net.store.size ∧ (net.state id).attributes.decision = some (some (place : Int))

/-- All numberings of a network are as they should be. -/
structure Consistent (net : Network) : Prop where
  states : Numbered net
  tables : Tabled net

/-! ## Advances -/

/-- A change that a step makes, unless it sets attributes or edits a table directly. -/
inductive Advance (net : Network) : Network → Prop
  | made (kind : StateKind) (rule : Int) : Advance net { net with store := net.store.push (.ofKind kind rule) }
  | listed {id : StateId} (made : id < net.store.size) (fresh : (net.state id).owned = false) :
      Advance net
        { net.modify id (fun s => { s with owned := true, number := net.slots.size }) with
          slots := net.slots.push (some id) }
  | reserved : Advance net { net with slots := net.slots.push none }
  | cleared (place : Nat) : Advance net { net with slots := net.slots.setIfInBounds place none }
  | stilled (id : StateId) (f : State → State) (still : Still (net.state id) (f (net.state id))) :
      Advance net (net.modify id f)
  | registered {start stop : StateId} (symbol : Symbol) (starts : net.Marks .ruleStart net.ruleStarts.size start)
      (stops : net.Marks .ruleStop net.ruleStarts.size stop)
      (linked : (net.state start).attributes.stopState = some (some stop)) :
      Advance net
        { net with
          ruleStarts := net.ruleStarts.push (some start)
          ruleStops := net.ruleStops.push (some stop)
          ruleSymbols := net.ruleSymbols.map (·.push symbol) }
  | decided {id : StateId} (made : id < net.store.size) (fresh : some id ∉ net.decisions) :
      Advance net (net.withDecision id)
  | noted (modes : Array (Option StateId)) (names : List (String × Option StateId)) (actions : Array LexerAction) :
      Advance net { net with modes := modes, modeNames := names, actions := actions }

/-- Some advances, one after the other. -/
abbrev Advances : Network → Network → Prop := Relation.ReflTransGen Advance

section Advances

variable {net later : Network} {id other : StateId}

theorem KeepsLinks.refl (a : Attributes) : KeepsLinks a a := ⟨fun _ => id, fun _ => id, fun _ => id⟩

theorem Settled.refl (s : State) : Settled s s := ⟨fun _ => rfl, .refl s.attributes⟩

theorem Settled.trans {s later last : State} (first : Settled s later) (second : Settled later last) :
    Settled s last where
  number := by
    intro numbered
    have same := first.number numbered
    rw [second.number (same ▸ numbered), same]
  links :=
    ⟨fun link found => second.links.endState link (first.links.endState link found),
      fun link found => second.links.startState link (first.links.startState link found),
      fun link found => second.links.stopState link (first.links.stopState link found)⟩

theorem Steady.refl (s : State) : Steady s s := ⟨rfl, rfl, .refl s.attributes⟩

theorem Still.refl (s : State) : Still s s := ⟨.refl s, rfl, rfl, rfl⟩

theorem Steady.marks
    {kind : StateKind} {rule : Nat} (steady : Steady (net.state id) (later.state id)) (marks : net.Marks kind rule id)
    (grows : net.store.size ≤ later.store.size) : later.Marks kind rule id :=
  ⟨Nat.lt_of_lt_of_le marks.made grows, steady.kind.trans marks.kind, steady.rule.trans marks.rule⟩

theorem still_modify {f : State → State} (still : Still (net.state id) (f (net.state id))) (other : StateId) :
    Still (net.state other) ((net.modify id f).state other) := by
  rcases net.state_modify id other f with kept | ⟨rfl, changed⟩
  · rw [kept]
    exact .refl _
  · rw [changed]
    exact still

theorem state_made (net : Network) (kind : StateKind) (rule : Int) (id : StateId) :
    ({ net with store := net.store.push (.ofKind kind rule) } : Network).state id =
      if id = net.store.size then .ofKind kind rule else net.state id := by
  unfold Network.state
  rw [Array.getElem?_push]
  by_cases last : id = net.store.size
  · rw [if_pos last, if_pos last]
    rfl
  · rw [if_neg last, if_neg last]

/-! ### Numbers of states -/

theorem Numbered.same
    (numbered : Numbered net) (slots : later.slots = net.slots) (grows : net.store.size ≤ later.store.size)
    (owned : ∀ id, (later.state id).owned = (net.state id).owned)
    (number : ∀ id, (later.state id).number = (net.state id).number) : Numbered later where
  slots := by
    intro slot id entry
    rw [slots] at entry
    have known := numbered.slots slot id entry
    rw [owned, number]
    exact ⟨Nat.lt_of_lt_of_le known.1 grows, known.2⟩
  owned := by
    intro id
    rw [owned, number, slots]
    exact numbered.owned id
  unowned := by
    intro id
    rw [owned, number]
    exact numbered.unowned id
  distinct := by
    intro id other
    rw [number, number]
    exact numbered.distinct id other

theorem Numbered.emptied
    (numbered : Numbered net) {slots : Array (Option StateId)} (grows : net.slots.size ≤ slots.size)
    (fewer : ∀ (slot : Nat) id, slots[slot]? = some (some id) → net.slots[slot]? = some (some id)) :
    Numbered { net with slots := slots } where
  slots := fun slot id entry => numbered.slots slot id (fewer slot id entry)
  owned := fun id owned =>
    have bounds := numbered.owned id owned
    ⟨bounds.1, Int.lt_of_lt_of_le bounds.2 (Int.ofNat_le.mpr grows)⟩
  unowned := numbered.unowned
  distinct := numbered.distinct

theorem Numbered.lt_size (numbered : Numbered net) (id : StateId) : (net.state id).number < net.slots.size := by
  cases owned : (net.state id).owned with
  | false =>
      rw [numbered.unowned id owned]
      omega
  | true => exact (numbered.owned id owned).2

theorem Numbered.listed
    (numbered : Numbered net) (made : id < net.store.size) (fresh : (net.state id).owned = false) :
    Numbered
      { net.modify id (fun s => { s with owned := true, number := net.slots.size }) with
        slots := net.slots.push (some id) } := by
  let number : State → State := fun s => { s with owned := true, number := net.slots.size }
  -- Slots are no part of what a state is: below, states are those of the network in which `id` is numbered.
  show Numbered { net.modify id number with slots := net.slots.push (some id) }
  generalize after : net.modify id number = later
  have size : later.store.size = net.store.size := by
    rw [← after]
    exact Network.size_modify _
  have listed : (later.state id).owned = true ∧ (later.state id).number = net.slots.size := by
    rw [← after, Network.state_modify_self made]
    exact ⟨rfl, rfl⟩
  have others : ∀ {other}, other ≠ id → later.state other = net.state other := by
    intro other apart
    rw [← after]
    exact Network.state_modify_of_ne apart
  have counted : (net.slots.push (some id)).size = net.slots.size + 1 := Array.size_push _
  constructor
  · intro slot other entry
    have pushed : (net.slots.push (some id))[slot]? = some (some other) := entry
    show other < later.store.size ∧ (later.state other).owned = true ∧ (later.state other).number = slot
    rcases entry_of_push pushed with ⟨rfl, same⟩ | old
    · obtain rfl := Option.some.inj same
      rw [size]
      exact ⟨made, listed⟩
    · have known := numbered.slots slot other old
      have apart : other ≠ id := by
        intro same
        rw [same, fresh] at known
        exact Bool.noConfusion known.2.1
      rw [others apart, size]
      exact known
  · intro other owned
    show 0 ≤ (later.state other).number ∧ (later.state other).number < (net.slots.push (some id)).size
    by_cases same : other = id
    · rw [same, listed.2, counted]
      omega
    · have before : (net.state other).owned = true := others same ▸ owned
      have bounds := numbered.owned other before
      rw [others same, counted]
      omega
  · intro other unowned
    have unlisted : (later.state other).owned = false := unowned
    show (later.state other).number = -1
    by_cases same : other = id
    · rw [same, listed.1] at unlisted
      contradiction
    · rw [others same] at unlisted ⊢
      exact numbered.unowned other unlisted
  · intro first second positive equal
    have positiveHere : 0 ≤ (later.state first).number := positive
    have equalHere : (later.state first).number = (later.state second).number := equal
    have firstBelow := numbered.lt_size first
    have secondBelow := numbered.lt_size second
    by_cases sameFirst : first = id
    · by_cases sameSecond : second = id
      · rw [sameFirst, sameSecond]
      · rw [sameFirst, listed.2, others sameSecond] at equalHere
        omega
    · rw [others sameFirst] at positiveHere equalHere
      by_cases sameSecond : second = id
      · rw [sameSecond, listed.2] at equalHere
        omega
      · rw [others sameSecond] at equalHere
        exact numbered.distinct first second positiveHere equalHere

/-! ### Tables of rules and decisions -/

theorem Tabled.rules_of_steady
    (tabled : Tabled net) (starts : later.ruleStarts = net.ruleStarts) (stops : later.ruleStops = net.ruleStops)
    (grows : net.store.size ≤ later.store.size)
    (steady : ∀ id < net.store.size, Steady (net.state id) (later.state id)) :
    ∀ rule < later.ruleStarts.size, ∃ start stop, later.Delimits rule start stop ∧
      later.Marks .ruleStart rule start ∧ later.Marks .ruleStop rule stop ∧
        (later.state start).attributes.stopState = some (some stop) := by
  intro rule known
  rw [starts] at known
  obtain ⟨start, stop, delimits, startMarks, stopMarks, linked⟩ := tabled.rules rule known
  have startSteady := steady start startMarks.made
  refine ⟨start, stop, ⟨?_, ?_⟩, startSteady.marks startMarks grows,
    (steady stop stopMarks.made).marks stopMarks grows, startSteady.links.stopState stop linked⟩
  · rw [starts]
    exact delimits.start
  · rw [stops]
    exact delimits.stop

theorem Tabled.still
    (tabled : Tabled net) (starts : later.ruleStarts = net.ruleStarts) (stops : later.ruleStops = net.ruleStops)
    (symbols : later.ruleSymbols = net.ruleSymbols) (decisions : later.decisions = net.decisions)
    (grows : net.store.size ≤ later.store.size)
    (steady : ∀ id < net.store.size, Steady (net.state id) (later.state id))
    (stamps : ∀ id < net.store.size, (later.state id).attributes.decision = (net.state id).attributes.decision) :
    Tabled later where
  stops := by
    rw [starts, stops]
    exact tabled.stops
  symbols := by
    rw [starts, symbols]
    exact tabled.symbols
  rules := tabled.rules_of_steady starts stops grows steady
  decisions := by
    intro place id entry
    rw [decisions] at entry
    have known := tabled.decisions place id entry
    rw [stamps id known.1]
    exact ⟨Nat.lt_of_lt_of_le known.1 grows, known.2⟩

theorem Tabled.registered
    {start stop : StateId} (tabled : Tabled net) (symbol : Symbol)
    (starts : net.Marks .ruleStart net.ruleStarts.size start) (stops : net.Marks .ruleStop net.ruleStarts.size stop)
    (linked : (net.state start).attributes.stopState = some (some stop)) :
    Tabled
      { net with
        ruleStarts := net.ruleStarts.push (some start)
        ruleStops := net.ruleStops.push (some stop)
        ruleSymbols := net.ruleSymbols.map (·.push symbol) } where
  stops := by
    show (net.ruleStops.push _).size = (net.ruleStarts.push _).size
    rw [Array.size_push, Array.size_push, tabled.stops]
  symbols := by
    intro symbols found
    obtain ⟨before, known, rfl⟩ := Option.map_eq_some_iff.mp found
    show (before.push symbol).size = (net.ruleStarts.push _).size
    rw [Array.size_push, Array.size_push, tabled.symbols before known]
  rules := by
    intro rule known
    have bound : rule < (net.ruleStarts.push (some start)).size := known
    have same : ∀ {kind id}, net.Marks kind rule id → Network.Marks
        { net with
          ruleStarts := net.ruleStarts.push (some start)
          ruleStops := net.ruleStops.push (some stop)
          ruleSymbols := net.ruleSymbols.map (·.push symbol) } kind rule id :=
      fun marks => ⟨marks.made, marks.kind, marks.rule⟩
    by_cases last : rule = net.ruleStarts.size
    · rw [← last] at starts stops
      refine ⟨start, stop, ⟨?_, ?_⟩, same starts, same stops, linked⟩
      · show (net.ruleStarts.push (some start))[rule]? = some (some start)
        rw [Array.getElem?_push, if_pos last]
      · show (net.ruleStops.push (some stop))[rule]? = some (some stop)
        rw [Array.getElem?_push, tabled.stops, if_pos last]
    · have old : rule < net.ruleStarts.size := by
        rw [Array.size_push] at bound
        omega
      obtain ⟨first, second, delimits, firstMarks, secondMarks, linked⟩ := tabled.rules rule old
      refine ⟨first, second, ⟨?_, ?_⟩, same firstMarks, same secondMarks, linked⟩
      · show (net.ruleStarts.push (some start))[rule]? = some (some first)
        rw [Array.getElem?_push, if_neg last, delimits.start]
      · show (net.ruleStops.push (some stop))[rule]? = some (some second)
        rw [Array.getElem?_push, tabled.stops, if_neg last, delimits.stop]
  decisions := tabled.decisions

theorem steady_withDecision (net : Network) (id other : StateId) :
    Steady (net.state other) ((net.withDecision id).state other) ∧
      ((net.withDecision id).state other).owned = (net.state other).owned ∧
      ((net.withDecision id).state other).number = (net.state other).number := by
  have stamped := Network.state_modify { net with decisions := net.decisions.push (some id) } id other
    (·.set (.decision (some net.decisions.size)))
  rcases stamped with kept | ⟨_, changed⟩
  · have same : (net.withDecision id).state other = net.state other := kept
    rw [same]
    exact ⟨.refl _, rfl, rfl⟩
  · have same : (net.withDecision id).state other = (net.state other).set (.decision (some net.decisions.size)) := changed
    rw [same]
    exact ⟨⟨rfl, rfl, fun _ found => found, fun _ found => found, fun _ found => found⟩, rfl, rfl⟩

theorem Tabled.decided (tabled : Tabled net) (made : id < net.store.size) (fresh : some id ∉ net.decisions) :
    Tabled (net.withDecision id) where
  stops := tabled.stops
  symbols := tabled.symbols
  rules :=
    tabled.rules_of_steady rfl rfl (Nat.le_of_eq (Network.size_modify _).symm) fun other _ =>
      (steady_withDecision net id other).1
  decisions := by
    intro place other entry
    have size : (net.withDecision id).store.size = net.store.size := Network.size_modify _
    have pushed : (net.decisions.push (some id))[place]? = some (some other) := entry
    rw [size]
    rcases entry_of_push pushed with ⟨rfl, same⟩ | old
    · obtain rfl := Option.some.inj same
      have stamped : (net.withDecision id).state id = (net.state id).set (.decision (some net.decisions.size)) :=
        Network.state_modify_self made
      rw [stamped]
      exact ⟨made, rfl⟩
    · have apart : other ≠ id := by
        rintro rfl
        exact fresh (Array.mem_of_getElem? old)
      have kept : (net.withDecision id).state other = net.state other := Network.state_modify_of_ne apart
      rw [kept]
      exact tabled.decisions place other old

/-! ### Both together -/

theorem Consistent.advance (consistent : Consistent net) (advance : Advance net later) : Consistent later := by
  obtain ⟨numbered, tabled⟩ := consistent
  cases advance with
  | made kind rule =>
      have grows : net.store.size ≤ (net.store.push (State.ofKind kind rule)).size := by
        rw [Array.size_push]
        exact Nat.le_succ _
      have still : ∀ id < net.store.size, Still (net.state id)
          (({ net with store := net.store.push (.ofKind kind rule) } : Network).state id) := by
        intro id made
        rw [state_made, if_neg (Nat.ne_of_lt made)]
        exact .refl _
      have unlisted : ∀ id, (({ net with store := net.store.push (.ofKind kind rule) } : Network).state id).owned =
            (net.state id).owned ∧
          (({ net with store := net.store.push (.ofKind kind rule) } : Network).state id).number =
            (net.state id).number := by
        intro id
        rw [state_made]
        by_cases last : id = net.store.size
        · rw [if_pos last, last, Network.state_of_size_le (Nat.le_refl _)]
          exact ⟨rfl, rfl⟩
        · rw [if_neg last]
          exact ⟨rfl, rfl⟩
      exact ⟨numbered.same rfl grows (fun id => (unlisted id).1) (fun id => (unlisted id).2),
        tabled.still rfl rfl rfl rfl grows (fun id made => (still id made).toSteady) fun id made => (still id made).decision⟩
  | @listed id made fresh =>
      let number : State → State := fun s => { s with owned := true, number := net.slots.size }
      have size : (net.modify id number).store.size = net.store.size := Network.size_modify _
      have kept : ∀ other, Steady (net.state other) ((net.modify id number).state other) ∧
          ((net.modify id number).state other).attributes = (net.state other).attributes := by
        intro other
        rcases net.state_modify id other number with same | ⟨_, changed⟩
        · rw [same]
          exact ⟨.refl _, rfl⟩
        · rw [changed]
          exact ⟨⟨rfl, rfl, .refl _⟩, rfl⟩
      exact ⟨numbered.listed made fresh,
        tabled.still rfl rfl rfl rfl (Nat.le_of_eq size.symm) (fun other _ => (kept other).1) fun other _ =>
          congrArg Attributes.decision (kept other).2⟩
  | reserved =>
      refine ⟨numbered.emptied ?_ ?_, ?_⟩
      · rw [Array.size_push]
        exact Nat.le_succ _
      · intro slot id entry
        rcases entry_of_push entry with ⟨_, filled⟩ | old
        · contradiction
        · exact old
      · exact tabled.still rfl rfl rfl rfl (Nat.le_refl _) (fun id _ => .refl _) fun id _ => rfl
  | cleared place =>
      refine ⟨numbered.emptied ?_ ?_, ?_⟩
      · exact Nat.le_of_eq Array.size_setIfInBounds.symm
      · intro slot id entry
        rw [Array.getElem?_setIfInBounds] at entry
        by_cases here : place = slot
        · rw [if_pos here] at entry
          split at entry
          · injection entry with entry
            contradiction
          · contradiction
        · rw [if_neg here] at entry
          exact entry
      · exact tabled.still rfl rfl rfl rfl (Nat.le_refl _) (fun id _ => .refl _) fun id _ => rfl
  | stilled id f still =>
      have size : (net.modify id f).store.size = net.store.size := Network.size_modify f
      have kept := still_modify still
      exact ⟨numbered.same rfl (Nat.le_of_eq size.symm) (fun other => (kept other).owned) fun other => (kept other).number,
        tabled.still rfl rfl rfl rfl (Nat.le_of_eq size.symm) (fun other _ => (kept other).toSteady) fun other _ =>
          (kept other).decision⟩
  | registered symbol starts stops linked =>
      exact ⟨numbered.same rfl (Nat.le_refl _) (fun _ => rfl) fun _ => rfl,
        tabled.registered symbol starts stops linked⟩
  | @decided id made fresh =>
      have size : (net.withDecision id).store.size = net.store.size := Network.size_modify _
      have kept := steady_withDecision net id
      exact ⟨numbered.same rfl (Nat.le_of_eq size.symm) (fun other => (kept other).2.1) fun other => (kept other).2.2,
        tabled.decided made fresh⟩
  | noted modes names actions =>
      exact ⟨numbered.same rfl (Nat.le_refl _) (fun _ => rfl) fun _ => rfl,
        tabled.still rfl rfl rfl rfl (Nat.le_refl _) (fun id _ => .refl _) fun id _ => rfl⟩

theorem Advance.settled (advance : Advance net later) (numbered : Numbered net) (id : StateId) :
    Settled (net.state id) (later.state id) := by
  cases advance with
  | made kind rule =>
      rw [state_made]
      by_cases last : id = net.store.size
      · -- Nothing was known of the state before it was made.
        rw [if_pos last, last, Network.state_of_size_le (Nat.le_refl _)]
        exact ⟨fun numbered => absurd numbered (by decide), ⟨nofun, nofun, nofun⟩⟩
      · rw [if_neg last]
        exact .refl _
  | @listed other made fresh =>
      have stepped := net.state_modify other id fun s => { s with owned := true, number := net.slots.size }
      rcases stepped with same | ⟨rfl, changed⟩
      · exact same ▸ .refl _
      · refine changed ▸ ⟨fun positive => ?_, .refl _⟩
        rw [numbered.unowned id fresh] at positive
        contradiction
  | reserved | cleared | registered | noted => exact .refl _
  | stilled other f still => exact ⟨fun _ => (still_modify still id).number, (still_modify still id).links⟩
  | @decided other made fresh =>
      have kept := steady_withDecision net other id
      exact ⟨fun _ => kept.2.2, kept.1.links⟩

theorem Consistent.advances (consistent : Consistent net) (advances : Advances net later) :
    Consistent later ∧ ∀ id, Settled (net.state id) (later.state id) := by
  induction advances with
  | refl => exact ⟨consistent, fun id => .refl _⟩
  | tail _ advance inductionHypothesis =>
      obtain ⟨before, settled⟩ := inductionHypothesis
      exact ⟨before.advance advance, fun id => (settled id).trans (advance.settled before.states id)⟩

theorem Advances.none_mem (advances : Advances net later) (member : none ∈ later.decisions) : none ∈ net.decisions := by
  induction advances with
  | refl => exact member
  | tail _ advance inductionHypothesis =>
      apply inductionHypothesis
      cases advance with
      | @decided id _ _ =>
          rcases Array.mem_push.mp member with old | new
          · exact old
          · contradiction
      | made | listed | reserved | cleared | stilled | registered | noted => exact member

end Advances

end Construction

end GrammarNet
