import GrammarNet.Proofs.Construction.Building
import GrammarNet.Proofs.Search.Safe

/-!
# Verified networks

What the success of a verification says about the listed states, and what it makes of a network that a builder has
assembled.
-/

namespace GrammarNet

open Construction

theorem forM_eq_ok_iff {α : Type} {check : α → Except Fault Unit} {entries : List α} :
    entries.forM check = .ok () ↔ ∀ a ∈ entries, check a = .ok () := by
  induction entries with
  | nil => exact ⟨fun _ a member => absurd member List.not_mem_nil, fun _ => rfl⟩
  | cons first rest inductionHypothesis =>
      rw [List.forall_mem_cons, ← inductionHypothesis]
      show (check first >>= fun _ => rest.forM check) = .ok () ↔ _
      cases check first with
      | error fault => exact iff_of_false nofun fun passed => nomatch passed.1
      | ok => exact (and_iff_right rfl).symm

theorem ensure_eq_ok_iff {invariant : Prop} [Decidable invariant] {defect : Defect} :
    ensure invariant defect = .ok () ↔ invariant := by
  unfold ensure
  by_cases holds : invariant
  · simp only [holds, if_true]
  · simp only [holds, if_false]
    exact iff_of_false nofun not_false

/-- Checks in sequence succeed if each of them does. -/
theorem andThen_eq_ok_iff {first second : Except Fault Unit} :
    (first >>= fun _ => second) = .ok () ↔ first = .ok () ∧ second = .ok () := by
  cases first with
  | error fault => exact iff_of_false nofun fun passed => nomatch passed.1
  | ok => exact (and_iff_right rfl).symm

namespace Network

variable {net : Network} {id : StateId} {t : Transition}

theorem verifyState_of_verify (verified : net.verify = .ok ()) (listed : id ∈ net.listed) :
    net.verifyState (net.state id) = .ok () := by
  have states := (andThen_eq_ok_iff.mp (andThen_eq_ok_iff.mp verified).2).2
  obtain ⟨slot, inSlots, same⟩ := List.mem_filterMap.mp listed
  have checked := forM_eq_ok_iff.mp states slot inSlots
  have holds : slot = some id := same
  rw [holds] at checked
  exact checked

/-- In a verified network, the start of a rule is linked to the stop of the rule. -/
theorem stopState_of_verify
    {rule : Nat} {start stop : StateId} (verified : net.verify = .ok ()) (delimits : net.Delimits rule start stop) :
    (net.state start).attributes.stopState = some (some stop) := by
  have inTable : rule < max net.ruleStarts.size net.ruleStops.size :=
    Nat.lt_of_lt_of_le (Array.getElem?_eq_some_iff.mp delimits.start).1 (Nat.le_max_left _ _)
  have checked := forM_eq_ok_iff.mp (andThen_eq_ok_iff.mp verified).1 rule (List.mem_range.mpr inTable)
  simp only [verifyRule, delimits.start, delimits.stop, Option.join_some] at checked
  cases linked : (net.state start).attributes.stopState with
  | none =>
      rw [linked] at checked
      contradiction
  | some link =>
      rw [linked] at checked
      exact congrArg some (ensure_eq_ok_iff.mp checked)

/-- In a verified network, an invocation is the only transition of its state, and says where to go on. -/
theorem alone_of_verify
    (verified : net.verify = .ok ()) (listed : id ∈ net.listed) (member : t ∈ (net.state id).transitions)
    (invokes : t.isRule = true) : (net.state id).transitions = [t] ∧ t.kind.follow?.isSome = true := by
  have checked := (andThen_eq_ok_iff.mp (andThen_eq_ok_iff.mp (verifyState_of_verify verified listed)).2).1
  have passed := forM_eq_ok_iff.mp checked t member
  obtain ⟨target, kind⟩ := t
  cases kind with
  | rule index precedence follow =>
      obtain ⟨alone, present⟩ := andThen_eq_ok_iff.mp passed
      obtain ⟨only, same⟩ := List.length_eq_one_iff.mp (ensure_eq_ok_iff.mp alone)
      rw [same] at member ⊢
      exact ⟨by rw [List.mem_singleton.mp member], ensure_eq_ok_iff.mp present⟩
  | plain | abstractPredicate | epsilon | atom | range | set | notSet | wildcard | predicate | precedence | action =>
      exact Bool.noConfusion invokes

end Network

namespace Construction

variable {net : Network} {id : StateId} {t : Transition} {number : Int}

/-! ## Slots of an assembled network -/

theorem Assembled.mem_listed_iff (assembled : Assembled net) : id ∈ net.listed ↔ id < net.store.size := by
  unfold Network.listed
  rw [assembled.slots]
  simp

theorem Assembled.slot?_number (assembled : Assembled net) (listed : id ∈ net.listed) :
    net.slot? (net.state id).number = some id := by
  have made := assembled.mem_listed_iff.mp listed
  rw [assembled.numbered id made]
  unfold Network.slot?
  rw [assembled.slots]
  simp [made]

theorem offer_of_filled {kind : TransitionKind} (filled : kind.Filled) (greatest : Symbol) :
    ∃ offer, kind.offer greatest = .ok offer := by
  cases kind with
  | notSet label =>
      unfold TransitionKind.offer
      by_cases small : greatest < Symbol.firstUser
      · exact ⟨_, if_pos small⟩
      · obtain ⟨ranges, present⟩ := Option.isSome_iff_exists.mp (filled label rfl)
        simp only [small, if_false, RangeSet.complement, present]
        exact ⟨_, rfl⟩
  | wildcard =>
      unfold TransitionKind.offer
      by_cases small : greatest < Symbol.firstUser
      · exact ⟨_, if_pos small⟩
      · exact ⟨_, if_neg small⟩
  | plain | abstractPredicate | epsilon | atom | range | set | rule | predicate | precedence | action => exact ⟨_, rfl⟩

/-- Searches find their way through every network that a builder has assembled and that was verified. -/
theorem Assembled.navigable (assembled : Assembled net) (verified : net.verify = .ok ()) : net.Navigable where
  numbered := fun id listed => assembled.slot?_number listed
  targets := fun id listed t member => assembled.mem_listed_iff.mpr (assembled.transitions id t member).target
  invocations := by
    intro id listed t member invokes
    obtain ⟨alone, present⟩ := Network.alone_of_verify verified listed member invokes
    obtain ⟨next, follow⟩ := Option.isSome_iff_exists.mp present
    have made : next < net.store.size := (assembled.transitions id t member).follow next follow
    exact ⟨alone, next, assembled.mem_listed_iff.mpr made, follow⟩
  offers := fun id listed t member => offer_of_filled (assembled.transitions id t member).filled net.maxSymbol

end Construction

end GrammarNet
