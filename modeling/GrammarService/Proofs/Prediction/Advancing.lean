import GrammarService.Proofs.Prediction.Jobs
import GrammarService.Proofs.Prediction.NotedConditions

namespace GrammarService

/-!
# Where a job leads

Whatever a configuration has noted, and whether conditions still count or not, doing a job extends
the store and forgets nothing that was followed. Following an edge changes the state, and the stack
where a rule is entered; it notes the condition of the edge or none. What is behind an edge that is
not free, or behind the end of a rule, is checked.
-/

namespace Prediction

variable
  {setting : Setting}
  {endIsFree fullContext : Bool}
  {visit next : Visit}
  {state : Network.State}
  {edge : Edge}
  {store after : StackStore}
  {search between result : Search}

/-- A search has gone on: its store has grown and what was followed still is. -/
structure Advances (search result : Search) : Prop where
  holds : result.Holds
  extension : search.store.Extends result.store
  visited :
    ∀ {key : Configuration.Key},
      search.visited.contains key = true → result.visited.contains key = true

namespace Advances

theorem refl
    (holds : search.Holds) :
    Advances search search where
  holds := holds
  extension := .refl _
  visited := id

theorem trans
    (earlier : Advances search between)
    (later : Advances between result) :
    Advances search result where
  holds := later.holds
  extension := earlier.extension.trans later.extension
  visited := later.visited ∘ earlier.visited

end Advances

/-- The stack behind an edge, where a rule is entered by an interned one. -/
inductive PushesBehind
    (endIsFree : Bool)
    (store : StackStore)
    (before : StackId) :
    Edge → StackId → Prop where
  | pass
      {edge : Edge}
      (passes : edge.isPassed endIsFree = true) :
      PushesBehind endIsFree store before edge before
  | call
      {target rule follow : Nat}
      {precedence : Int}
      {pushed : StackId}
      (isPushed : store.interned[[(⟨some follow, before⟩ : StackEntry)]]? = some pushed) :
      PushesBehind endIsFree store before (.call target rule precedence follow) pushed

/-- A visit is behind an edge of the one being followed. -/
structure LiesBehind
    (endIsFree : Bool)
    (store : StackStore)
    (visit : Visit)
    (state : Network.State)
    (edge : Edge)
    (next : Visit) :
    Prop where
  isTarget : next.configuration.state = edge.target
  sameAlternative : next.configuration.alternative = visit.configuration.alternative
  pushes :
    PushesBehind endIsFree store visit.configuration.stack edge next.configuration.stack
  notes :
    next.configuration.condition = visit.configuration.condition ∨
      ∃ guard,
        edge.guard? = some guard ∧
          next.configuration.condition = visit.configuration.condition.both guard
  checked : next.checked = (decide (state.kind = .ruleStop) || !edge.isEpsilon)

theorem PushesBehind.extended
    {before stack : StackId}
    (pushes : PushesBehind endIsFree store before edge stack)
    (extension : store.Extends after) :
    PushesBehind endIsFree after before edge stack := by
  cases pushes with
  | pass passes => exact .pass passes
  | call isPushed => exact .call (extension.interned isPushed)

/-- What a visit is behind an edge comes from the configuration behind it. -/
theorem liesBehind_visitBehind
    {collects : Bool}
    {behind : Configuration}
    (isTarget : behind.state = edge.target)
    (sameAlternative : behind.alternative = visit.configuration.alternative)
    (pushes : PushesBehind endIsFree store visit.configuration.stack edge behind.stack)
    (notes :
      behind.condition = visit.configuration.condition ∨
        ∃ guard,
          edge.guard? = some guard ∧
            behind.condition = visit.configuration.condition.both guard) :
    LiesBehind endIsFree store visit state edge
      (visitBehind setting visit state edge collects behind) := by
  unfold visitBehind
  split
  · rename_i stopped
    exact ⟨isTarget, sameAlternative, pushes, notes, by simp [stopped]⟩
  · rename_i inside
    exact ⟨isTarget, sameAlternative, pushes, notes, by simp [inside]⟩

/-- Where a condition is passed, it is noted or the configuration keeps its own. -/
theorem condition_of_passCondition?
    {configuration behind : Configuration}
    {target : Nat}
    {guard : Condition}
    (isBehind : passCondition? setting fullContext configuration target guard = some behind) :
    behind.condition = configuration.condition ∨
      behind.condition = configuration.condition.both guard := by
  unfold passCondition? at isBehind
  split at isBehind
  · split at isBehind <;> cases isBehind
    exact .inl rfl
  · cases isBehind
    exact .inr rfl

/-- Where an edge is passed, its condition is noted or the configuration keeps its own. -/
theorem condition_of_passEdge?
    {collects inContext : Bool}
    {configuration behind : Configuration}
    (isBehind :
      passEdge? setting fullContext endIsFree collects inContext configuration edge =
        some behind) :
    behind.condition = configuration.condition ∨
      ∃ guard,
        edge.guard? = some guard ∧ behind.condition = configuration.condition.both guard := by
  cases edge with
  | precedence | predicate =>
      dsimp only [passEdge?] at isBehind
      split at isBehind
      · exact (condition_of_passCondition? isBehind).imp_right fun isBoth => ⟨_, rfl, isBoth⟩
      · cases isBehind
        exact .inl rfl
  | epsilon | action =>
      cases isBehind
      exact .inl rfl
  | atom | range | set =>
      simp only [passEdge?, Option.ite_none_right_eq_some, Option.some.injEq] at isBehind
      obtain ⟨-, rfl⟩ := isBehind
      exact .inl rfl
  | _ => cases isBehind

/-- Only edges that need no token are passed. -/
theorem isPassed_of_passEdge?
    {collects inContext : Bool}
    {configuration behind : Configuration}
    (isBehind :
      passEdge? setting fullContext endIsFree collects inContext configuration edge =
        some behind) :
    edge.isPassed endIsFree = true := by
  cases edge with
  | epsilon | action | predicate | precedence => rfl
  | atom | range | set =>
      simp only [passEdge?, Option.ite_none_right_eq_some] at isBehind
      simpa [Edge.isPassed, Edge.isFree] using isBehind.1
  | _ => cases isBehind

/-- The visits that some edges are opened to are each behind one of them. -/
theorem liesBehind_of_mem_visitsBehind
    (wellMade : store.WellMade)
    (valid : store.IsIn visit.configuration.stack)
    (edges : List Edge) :
    ∀ next ∈ ((visitsBehind setting fullContext endIsFree visit state edges).run store).1,
      ∃ edge ∈ edges,
        LiesBehind endIsFree
          ((visitsBehind setting fullContext endIsFree visit state edges).run store).2 visit state
          edge next := by
  induction edges generalizing store with
  | nil =>
      intro next member
      cases member
  | cons edge edges inductionHypothesis =>
      cases isCall : edge.isCall with
      | true =>
          cases edge with
          | call target rule precedence follow =>
              have pushes := StackStore.repeats_push wellMade valid follow
              have stillValid := pushes.extension.valid valid
              have rest := inductionHypothesis pushes.wellMade stillValid
              have extension :=
                (@repeats_visitsBehind setting fullContext endIsFree visit state _ pushes.wellMade
                  stillValid edges).extension
              have isInterned := StackStore.interned_push store visit.configuration.stack follow
              rw [visitsBehind_call]
              intro next member
              rcases List.mem_cons.mp member with rfl | isRest
              · exact ⟨_, List.mem_cons_self, liesBehind_visitBehind rfl rfl
                  (.call (extension.interned isInterned)) (.inl rfl)⟩
              · obtain ⟨other, isOther, lies⟩ := rest next isRest
                exact ⟨other, List.mem_cons_of_mem _ isOther, lies⟩
          | _ => cases isCall
      | false =>
          rw [visitsBehind_other isCall]
          intro next member
          rcases List.mem_append.mp member with isFirst | isRest
          · rw [Option.mem_toList, Option.map_eq_some_iff] at isFirst
            obtain ⟨behind, isBehind, rfl⟩ := isFirst
            have same := eq_of_passEdge? isBehind
            refine ⟨edge, List.mem_cons_self, liesBehind_visitBehind ?_ ?_ ?_
              (condition_of_passEdge? isBehind)⟩
            · rw [same]
            · rw [same]
            · rw [same]
              exact .pass (isPassed_of_passEdge? isBehind)
          · obtain ⟨other, isOther, lies⟩ := inductionHypothesis wellMade valid next isRest
            exact ⟨other, List.mem_cons_of_mem _ isOther, lies⟩

/-- The visits that following a configuration leads to are each behind an edge of its state. -/
theorem Search.Holds.liesBehind_of_mem_expand
    (holds : search.Holds)
    (valid : search.store.IsIn visit.configuration.stack)
    (member : next ∈ (expand setting endIsFree visit search).1) :
    ∃ edge ∈ (setting.network.state visit.configuration.state).edges,
      LiesBehind endIsFree (expand setting endIsFree visit search).2.store visit
        (setting.network.state visit.configuration.state) edge next := by
  have keeps := holds.repeats_keptFirst setting.network valid
  rw [expand_edgesToFollow] at member ⊢
  obtain ⟨edge, isFollowed, lies⟩ :=
    liesBehind_of_mem_visitsBehind keeps.holds.wellMade (keeps.extension.valid valid) _ next member
  refine ⟨edge, ?_, lies⟩
  unfold edgesToFollow at isFollowed
  split at isFollowed
  · exact List.mem_of_mem_drop isFollowed
  · exact isFollowed

/-- Following the edges of a configuration extends the store and forgets nothing. -/
theorem Search.Holds.advances_expand
    (holds : search.Holds)
    (setting : Setting)
    (endIsFree : Bool)
    (valid : search.store.IsIn visit.configuration.stack) :
    Advances search (expand setting endIsFree visit search).2 where
  holds := (holds.expands setting endIsFree valid).holds
  extension := (holds.expands setting endIsFree valid).extension
  visited {key} isVisited := by
    have sameVisited : (expand setting endIsFree visit search).2.visited = search.visited := by
      rw [expand_edgesToFollow]
      exact visited_keptFirst
    rwa [sameVisited]

/-- Marking a visit as followed forgets nothing. -/
theorem Search.Holds.advances_mark
    (holds : search.Holds)
    (visit : Visit) :
    Advances search (search.mark visit) where
  holds := (holds.repeats_mark visit).holds
  extension := (holds.repeats_mark visit).extension
  visited isVisited := by
    unfold Search.mark
    split
    · simp [isVisited]
    · exact isVisited

namespace Job

/-- The stack that a job is about is in the store. -/
def IsIn
    (store : StackStore) :
    Job → Prop
  | follow visit | goAlong visit => store.IsIn visit.configuration.stack
  | keep configuration => store.IsIn configuration.stack

theorem IsIn.extended
    {job : Job}
    (isIn : job.IsIn store)
    (extension : store.Extends after) :
    job.IsIn after := by
  cases job <;> exact extension.valid isIn

/-- What is left to do for a configuration is about stacks of the store. -/
theorem isIn_of_mem_jobsAt
    {network : Network}
    {job : Job}
    (wellMade : store.WellMade)
    (valid : store.IsIn visit.configuration.stack)
    (member : job ∈ jobsAt network fullContext store visit) :
    job.IsIn store := by
  unfold jobsAt at member
  split at member
  · rw [List.mem_singleton.mp member]
    exact valid
  · split at member
    · rw [List.mem_singleton.mp member]
      exact valid
    · obtain ⟨entry, isEntry, rfl⟩ := List.mem_map.mp member
      unfold jobBehind
      split
      · exact wellMade.below_valid valid isEntry
      · split
        · exact wellMade.empty_valid
        · exact valid

/-- Doing a job extends the store and forgets nothing, and what it leaves to do is about stacks of
the store. -/
theorem IsIn.perform
    {job : Job}
    (isIn : job.IsIn search.store)
    (holds : search.Holds)
    (setting : Setting)
    (endIsFree : Bool) :
    Advances search (job.perform true setting endIsFree search).2 ∧
      ∀ next ∈ (job.perform true setting endIsFree search).1,
        next.IsIn (job.perform true setting endIsFree search).2.store := by
  cases job with
  | follow visit =>
      simp only [Job.perform]
      split
      · exact ⟨.refl holds, by simp⟩
      · refine ⟨holds.advances_mark visit, fun next member => ?_⟩
        rw [store_mark]
        exact isIn_of_mem_jobsAt holds.wellMade isIn member
  | goAlong visit =>
      simp only [Job.perform, expandWith_true]
      refine ⟨holds.advances_expand setting endIsFree isIn, ?_⟩
      intro next member
      obtain ⟨other, isOther, rfl⟩ := List.mem_map.mp member
      exact (holds.expands setting endIsFree isIn).areIn other isOther
  | keep configuration =>
      have keeps := holds.repeats_add isIn
      exact ⟨⟨keeps.holds, keeps.extension, id⟩, by simp [Job.perform]⟩

end Job

end Prediction

end GrammarService
