import GrammarNet.Proofs.Lookahead.Levels
import GrammarNet.Proofs.Search.Unread

/-!
# What an answer does not read

Without what is kept with the states, an answer is told by the searches within rules and by where links lead. So it is the
same in networks that differ in hidden transitions, if it consults none of these and what is kept is right wherever none
was consulted for it.
-/

namespace GrammarNet

/-! ## Answers without a memory -/

namespace Network

/-- What can come next within the rule of a state. -/
def within (net : Network) (state : Option StateId) : Except Fault RangeSet :=
  (net.lookahead {} state .unknown).map RangeSet.freeze

/-- What can come next within the rule to which a link returns. -/
def level (net : Network) (link : Int) : Except Fault RangeSet := (net.followState link).bind net.within

/-- What is expected after the state with a number, under callers with the given links. -/
def expected (net : Network) (number : Int) (links : List Int) : Except Fault RangeSet :=
  (net.slot? number).elim (.error (.invalidStateNumber number net.slots.size)) fun id =>
    Lookahead.gatherFrom (net.within (some id)) (links.map net.level)

theorem within_none (net : Network) : net.within none = .error .noState := by
  have ends : Search.Ends net {} (Search.start none .unknown) (.error .noState) 1 := .failed rfl rfl
  unfold within
  rw [ends.lookahead_eq]
  rfl

/-- The way out along the links consults an excerpt: the first transition of the state that a link names, one within the
rule to which it returns, or one further out if that rule can end. -/
inductive ConsultsBeyond (net : Network) : List Int → Excerpt → Prop
  | named {link : Int} {outer : List Int} {invoker : StateId} (found : net.slot? link = some invoker) :
      ConsultsBeyond net (link :: outer) (.first invoker)
  | within {link : Int} {outer : List Int} {next : Option StateId} {read : Excerpt}
      (followed : net.followState link = .ok next) (consults : net.Consults {} next .unknown read) :
      ConsultsBeyond net (link :: outer) read
  | further {link : Int} {outer : List Int} {following : RangeSet} {read : Excerpt}
      (level : net.level link = .ok following) (canEnd : Symbol.epsilon ∈ following)
      (beyond : ConsultsBeyond net outer read) : ConsultsBeyond net (link :: outer) read

end Network

namespace Lookahead

open NetM

/-! ## What queries consult -/

/-- The end of the outermost rule is marked in the answer, as it is in all answers but those for a decision. -/
def Query.MarksEnd : Query → Prop
  | .alternatives _ => False
  | .withinRule _ | .next .. | .look .. | .expected .. => True

/-- The links through which a query may return. -/
def Query.links : Query → List Int
  | .withinRule _ | .alternatives _ => []
  | .next _ callers | .look _ _ callers | .expected _ callers => callers.stack.links

/-- A query whose answer marks the end consults an excerpt. -/
inductive Query.Consults (net : Network) : Query → Excerpt → Prop
  | withinRule {state : Option StateId} {read : Excerpt} (consults : net.Consults {} state .unknown read) :
      Consults net (.withinRule state) read
  | nextWithin {state : Option StateId} {callers : Callers} {read : Excerpt}
      (alone : callers.stack = .unknown ∨ callers.stack.atRoot = true)
      (consults : net.Consults {} state .unknown read) : Consults net (.next state callers) read
  | nextAlong {state : Option StateId} {callers : Callers} {read : Excerpt}
      (called : ¬ (callers.stack = .unknown ∨ callers.stack.atRoot = true))
      (consults : net.Consults {} state callers.stack read) : Consults net (.next state callers) read
  | look {state stop : Option StateId} {callers : Callers} {read : Excerpt}
      (consults : net.Consults { stop := stop } state callers.stack read) : Consults net (.look state stop callers) read
  | expectedWithin {number : Int} {callers : Callers} {id : StateId} {read : Excerpt} (slot : net.slot? number = some id)
      (consults : net.Consults {} (some id) .unknown read) : Consults net (.expected number callers) read
  | expectedBeyond {number : Int} {callers : Callers} {id : StateId} {read : Excerpt} {following : RangeSet}
      (slot : net.slot? number = some id) (within : net.within (some id) = .ok following)
      (canEnd : Symbol.epsilon ∈ following) (beyond : net.ConsultsBeyond callers.stack.links read) :
      Consults net (.expected number callers) read

/-! ## Workspaces that reflect a network -/

/-- The workspace differs from the network at most in hidden transitions, and what it keeps with a state is what a search
finds in the network if that search consults nothing hidden. -/
structure Reflects (hidden : Excerpt → Prop) (net : Network) (work : Workspace) : Prop where
  same : net.SameBut hidden work.net
  known : ∀ id known, (work.net.state id).withinRule = some known →
    (∀ read, net.Consults {} (some id) .unknown read → ¬ hidden read) →
      ∃ found, net.lookahead {} (some id) .unknown = .ok found ∧ known = found.freeze

section Reflects

variable {hidden : Excerpt → Prop} {net : Network} {work other : Workspace}

theorem Reflects.within
    (reflects : Reflects hidden net work) {state : Option StateId}
    (seen : ∀ read, net.Consults {} state .unknown read → ¬ hidden read) : within work state = net.within state := by
  cases state with
  | none => rw [Lookahead.within_none, Network.within_none]
  | some id =>
      rw [within_some, Network.within, reflects.same.lookahead seen]
      cases kept : (work.net.state id).withinRule with
      | none => rfl
      | some known =>
          obtain ⟨found, ok, same⟩ := reflects.known id known kept seen
          rw [ok, same]
          rfl

theorem Reflects.look
    (reflects : Reflects hidden net work) {state stop : Option StateId} {stack : CallStack}
    (seen : ∀ read, net.Consults { stop := stop } state stack read → ¬ hidden read) :
    ((look state stop stack).runOn work).1 = net.lookahead { stop := stop } state stack := by
  rw [runOn_look]
  exact reflects.same.lookahead seen

theorem Reflects.level
    (reflects : Reflects hidden net work) {link : Int} {outer : List Int}
    (seen : ∀ read, net.ConsultsBeyond (link :: outer) read → ¬ hidden read) : level work link = net.level link := by
  have sameFollow : work.net.followState link = net.followState link :=
    reflects.same.followState fun invoker named => seen _ (.named named)
  rw [Lookahead.level, Network.level, sameFollow]
  cases followed : net.followState link with
  | error fault => rfl
  | ok next => exact reflects.within fun read consults => seen read (.within followed consults)

/-- The way out along the links gathers what the levels of the network have. -/
theorem Reflects.gather
    (reflects : Reflects hidden net work) (links : List Int) (found : RangeSet)
    (seen : ∀ read, net.ConsultsBeyond links read → ¬ hidden read) :
    gather (links.map (Lookahead.level work)) found = gather (links.map net.level) found := by
  induction links generalizing found with
  | nil => rfl
  | cons link outer inductionHypothesis =>
      rw [List.map_cons, List.map_cons, Lookahead.gather, Lookahead.gather, reflects.level seen]
      cases level : net.level link with
      | error fault => rfl
      | ok following =>
          simp only [Except.bind]
          by_cases canEnd : Symbol.epsilon ∈ following
          · rw [if_pos canEnd, if_pos canEnd]
            exact inductionHypothesis _ fun read beyond => seen read (.further level canEnd beyond)
          · rw [if_neg canEnd, if_neg canEnd]

theorem Reflects.expected
    (reflects : Reflects hidden net work) {number : Int} {callers : Callers}
    (seen : ∀ read, Query.Consults net (.expected number callers) read → ¬ hidden read) :
    ((expected number callers.stack).runOn work).1 = net.expected number callers.stack.links := by
  rw [outcome_expected, Network.expected, reflects.same.slot?, reflects.same.slots]
  cases slot : net.slot? number with
  | none => rfl
  | some id =>
      have here := reflects.within fun read consults => seen read (.expectedWithin slot consults)
      rw [Option.elim_some, Option.elim_some, gatherFrom, gatherFrom, here]
      cases within : net.within (some id) with
      | error fault => rfl
      | ok following =>
          simp only [Except.bind]
          by_cases canEnd : Symbol.epsilon ∈ following
          · rw [if_pos canEnd, if_pos canEnd]
            exact reflects.gather _ _ fun read beyond => seen read (.expectedBeyond slot within canEnd beyond)
          · rw [if_neg canEnd, if_neg canEnd]

/-- On workspaces that reflect the same network, a query that consults nothing hidden has the same answer. -/
theorem Reflects.answer_eq
    (reflects : Reflects hidden net work) (also : Reflects hidden net other) {query : Query} (marks : query.MarksEnd)
    (seen : ∀ read, query.Consults net read → ¬ hidden read) :
    (query.ask.runOn other).1 = (query.ask.runOn work).1 := by
  cases query with
  | withinRule state =>
      have seen := fun read consults => seen read (.withinRule consults)
      rw [Query.ask, runOn_bind_pure, runOn_bind_pure, outcome_withinRule, outcome_withinRule, reflects.within seen,
        also.within seen]
  | next state callers =>
      rw [Query.ask, runOn_bind_pure, runOn_bind_pure, Lookahead.next]
      by_cases alone : callers.stack = .unknown ∨ callers.stack.atRoot = true
      · have seen := fun read consults => seen read (.nextWithin alone consults)
        rw [if_pos alone, outcome_withinRule, outcome_withinRule, reflects.within seen, also.within seen]
      · have seen := fun read consults => seen read (.nextAlong alone consults)
        rw [if_neg alone, reflects.look seen, also.look seen]
  | look state stop callers =>
      have seen := fun read consults => seen read (.look consults)
      rw [Query.ask, runOn_bind_pure, runOn_bind_pure, reflects.look seen, also.look seen]
  | expected number callers =>
      rw [Query.ask, runOn_bind_pure, runOn_bind_pure, reflects.expected seen, also.expected seen]
  | alternatives state => exact marks.elim

end Reflects

/-! ## Rule stops -/

section Stops

variable {net : Network} {read : Excerpt}

theorem not_stops_of_consultsBeyond
    (unmistaken : net.Unmistaken) {links : List Int} (proper : ∀ link ∈ links, ¬ net.NamesStop link)
    (consults : net.ConsultsBeyond links read) : ¬ (net.state read.state).isRuleStop = true := by
  induction consults with
  | named found => exact fun stops => proper _ List.mem_cons_self ⟨_, found, stops⟩
  | within _ consults => exact Network.not_stops_of_consults_within unmistaken consults
  | further _ _ _ inductionHypothesis =>
      exact inductionHypothesis fun link member => proper link (List.mem_cons_of_mem _ member)

/-- A query whose answer marks the end consults no rule stop, if its links name none. -/
theorem Query.not_stops_of_consults
    (unmistaken : net.Unmistaken) {query : Query} (proper : ∀ link ∈ query.links, ¬ net.NamesStop link)
    (consults : query.Consults net read) : ¬ (net.state read.state).isRuleStop = true := by
  cases consults with
  | withinRule consults | nextWithin _ consults | expectedWithin _ consults =>
      exact Network.not_stops_of_consults_within unmistaken consults
  | nextAlong _ consults | look consults => exact Network.not_stops_of_consults unmistaken rfl proper consults
  | expectedBeyond _ _ _ beyond => exact not_stops_of_consultsBeyond unmistaken proper beyond

end Stops

end Lookahead

end GrammarNet
