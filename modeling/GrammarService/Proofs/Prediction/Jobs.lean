import GrammarService.Proofs.Prediction.Indexing

namespace GrammarService

/-!
# Following free edges job by job

What is left to do while free edges are followed is a list of jobs. The first one is done next, and
leaves further jobs to do before the others. This goes on for as long as it takes, without a limit,
and it can be done with or without the shortcut at precedence loops, by which rounds that can make
no difference are not followed.
-/

namespace ConfigurationSet

variable
  {set : ConfigurationSet}
  {store : StackStore}
  {state alternative : Nat}

/-- A set has a configuration of a state and alternative. -/
def HasPair
    (set : ConfigurationSet)
    (state alternative : Nat) :
    Prop :=
  ∃ configuration ∈ set.configurations,
    configuration.state = state ∧ configuration.alternative = alternative

/-- The pairs of a set are those that its index knows under some condition. -/
theorem IsIndexed.hasPair_iff
    (isIndexed : set.IsIndexed) :
    set.HasPair state alternative ↔
      ∃ condition, (set.find? (state, alternative, condition)).isSome = true := by
  constructor
  · rintro ⟨configuration, member, rfl, rfl⟩
    exact ⟨configuration.condition, Option.isSome_of_eq_some (isIndexed.mem_iff.mp member)⟩
  · rintro ⟨condition, isKnown⟩
    obtain ⟨configuration, isFound⟩ := Option.isSome_iff_exists.mp isKnown
    obtain ⟨member, sameKey⟩ := isIndexed.find?_eq_some_iff.mp isFound
    simp only [indexKey, Prod.mk.injEq] at sameKey
    exact ⟨configuration, member, sameKey.1, sameKey.2.1⟩

/-- Adding a configuration adds its state and alternative. -/
theorem IsIndexed.hasPair_add_iff
    (isIndexed : set.IsIndexed)
    (configuration : Configuration)
    (store : StackStore) :
    ((set.add configuration).run store).1.HasPair state alternative ↔
      set.HasPair state alternative ∨
        state = configuration.state ∧ alternative = configuration.alternative := by
  have isSome_add (key : Nat × Nat × Condition) :
      (((set.add configuration).run store).1.find? key).isSome = true ↔
        indexKey configuration = key ∨ (set.find? key).isSome = true := by
    rw [isIndexed.find?_add]
    split <;> simp_all
  simp only [(isIndexed.add configuration store).hasPair_iff, isIndexed.hasPair_iff, isSome_add,
    indexKey, Prod.mk.injEq, exists_or]
  constructor
  · rintro (⟨_, rfl, rfl, _⟩ | isOld)
    · exact .inr ⟨rfl, rfl⟩
    · exact .inl isOld
  · rintro (isOld | ⟨rfl, rfl⟩)
    · exact .inr isOld
    · exact .inl ⟨configuration.condition, rfl, rfl, rfl⟩

end ConfigurationSet

/-- Whether an edge is crossed without a token and without entering a rule. -/
def Edge.isPassed
    (endIsFree : Bool)
    (edge : Edge) :
    Bool :=
  edge.isFree || (endIsFree && edge.consumes endOfInput 0 1)

/-- Edges that are passed enter no rule. -/
theorem Edge.not_isCall_of_isPassed
    {edge : Edge}
    {endIsFree : Bool}
    (passes : edge.isPassed endIsFree = true) :
    edge.isCall = false := by
  cases edge <;> first | rfl | simp [isPassed, isFree, consumes] at passes

/-- Where an edge is passed, the rule goes on at its target. -/
theorem Edge.next_of_isPassed
    {edge : Edge}
    {endIsFree : Bool}
    (passes : edge.isPassed endIsFree = true) :
    edge.next = edge.target := by
  cases edge <;> first | rfl | simp [isPassed, isFree, consumes] at passes

namespace Prediction

variable
  {setting : Setting}
  {shortcut endIsFree fullContext : Bool}
  {visit : Visit}
  {state : Network.State}
  {store after : StackStore}
  {search between result : Search}

/-- Where conditions do not count any more, an edge is crossed or not whatever its conditions. -/
theorem passEdge?_of_not_collecting
    (inContext : Bool)
    (configuration : Configuration)
    (edge : Edge) :
    passEdge? setting fullContext endIsFree false inContext configuration edge =
      if edge.isPassed endIsFree then
        some { configuration with state := edge.target }
      else
        none := by
  cases edge <;>
    simp [passEdge?, Edge.isPassed, Edge.isFree, Edge.target, Edge.consumes, endOfInput]

/-- The stack behind an edge that is crossed with a stack. -/
inductive StackBehind
    (endIsFree : Bool)
    (store : StackStore)
    (before : StackId) :
    Edge → StackId → Prop where
  | pass
      {edge : Edge}
      (passes : edge.isPassed endIsFree = true) :
      StackBehind endIsFree store before edge before
  | call
      {target rule follow : Nat}
      {precedence : Int}
      {pushed : StackId}
      (isPushed : store.nodes[pushed]? = some [⟨some follow, before⟩]) :
      StackBehind endIsFree store before (.call target rule precedence follow) pushed

theorem StackBehind.grows
    {edge : Edge}
    {before stack : StackId}
    (behind : StackBehind endIsFree store before edge stack)
    (grows : store.Grows after) :
    StackBehind endIsFree after before edge stack := by
  cases behind with
  | pass passes => exact .pass passes
  | call isPushed => exact .call (grows.kept isPushed)

/-- The visit behind an edge, where conditions do not count any more. -/
def visitWith
    (setting : Setting)
    (visit : Visit)
    (state : Network.State)
    (edge : Edge)
    (stack : StackId) :
    Visit :=
  visitBehind setting visit state edge false
    { visit.configuration with state := edge.target, stack := stack }

section VisitWith

variable {edge : Edge} {stack : StackId}

@[simp] theorem state_visitWith :
    (visitWith setting visit state edge stack).configuration.state = edge.target := by
  unfold visitWith visitBehind
  split <;> rfl

@[simp] theorem alternative_visitWith :
    (visitWith setting visit state edge stack).configuration.alternative =
      visit.configuration.alternative := by
  unfold visitWith visitBehind
  split <;> rfl

@[simp] theorem condition_visitWith :
    (visitWith setting visit state edge stack).configuration.condition =
      visit.configuration.condition := by
  unfold visitWith visitBehind
  split <;> rfl

@[simp] theorem stack_visitWith :
    (visitWith setting visit state edge stack).configuration.stack = stack :=
  stack_visitBehind ..

@[simp] theorem collects_visitWith :
    (visitWith setting visit state edge stack).collects = false := by
  unfold visitWith visitBehind
  split <;> rfl

theorem checked_visitWith :
    (visitWith setting visit state edge stack).checked =
      (decide (state.kind = .ruleStop) || !edge.isEpsilon) := by
  unfold visitWith visitBehind
  split <;> simp_all

end VisitWith

/-- The visits that some edges are opened to are those behind the edges that can be crossed. -/
structure Opened
    (setting : Setting)
    (endIsFree : Bool)
    (visit : Visit)
    (state : Network.State)
    (edges : List Edge)
    (store : StackStore)
    (opened : List Visit × StackStore) :
    Prop where
  wellMade : opened.2.WellMade
  grows : store.Grows opened.2
  leads :
    ∀ next ∈ opened.1,
      ∃ edge ∈ edges,
        ∃ stack,
          StackBehind endIsFree opened.2 visit.configuration.stack edge stack ∧
            opened.2.IsIn stack ∧ next = visitWith setting visit state edge stack
  complete :
    ∀ edge ∈ edges,
      edge.isPassed endIsFree = true ∨ edge.isCall = true →
        ∃ stack,
          StackBehind endIsFree opened.2 visit.configuration.stack edge stack ∧
            visitWith setting visit state edge stack ∈ opened.1

/-- Where conditions do not count any more, opening edges leads across those that can be crossed. -/
theorem opened_visitsBehind
    (notCollecting : visit.collects = false)
    (wellMade : store.WellMade)
    (valid : store.IsIn visit.configuration.stack)
    (edges : List Edge) :
    Opened setting endIsFree visit state edges store
      ((visitsBehind setting fullContext endIsFree visit state edges).run store) := by
  have noneCollects (edge : Edge) : collectsBehind visit edge = false := by
    simp [collectsBehind, notCollecting]
  induction edges generalizing store with
  | nil =>
      have isRun :
          (visitsBehind setting fullContext endIsFree visit state []).run store = ([], store) :=
        rfl
      rw [isRun]
      exact ⟨wellMade, .refl store, by simp, by simp⟩
  | cons edge edges inductionHypothesis =>
      cases isCall : edge.isCall with
      | true =>
          cases edge with
          | call target rule precedence follow =>
              have interns := StackStore.interns_push wellMade valid follow
              have rest := inductionHypothesis interns.wellMade (interns.grows.valid valid)
              rw [visitsBehind_call, noneCollects]
              generalize (StackStore.push visit.configuration.stack follow).run store = pushed
                at interns rest ⊢
              have isNode :
                  pushed.2.nodes[pushed.1]? = some [⟨some follow, visit.configuration.stack⟩] := by
                have spelled := interns.spelled
                unfold StackStore.spelledEntries at spelled
                split at spelled
                · simp [StackEntry.bottom] at spelled
                · rw [StackStore.getElem?_of_lt interns.valid, spelled]
              have behind :
                  StackBehind endIsFree _ visit.configuration.stack
                    (.call target rule precedence follow) pushed.1 :=
                StackBehind.grows (.call isNode) rest.grows
              refine ⟨rest.wellMade, interns.grows.trans rest.grows, ?_, ?_⟩
              · intro next member
                rcases List.mem_cons.mp member with rfl | isRest
                · exact ⟨_, List.mem_cons_self, pushed.1, behind, rest.grows.valid interns.valid, rfl⟩
                · obtain ⟨other, isOther, leads⟩ := rest.leads next isRest
                  exact ⟨other, List.mem_cons_of_mem _ isOther, leads⟩
              · intro other member crossed
                rcases List.mem_cons.mp member with rfl | isRest
                · exact ⟨pushed.1, behind, List.mem_cons_self⟩
                · obtain ⟨stack, isBehind, isNext⟩ := rest.complete other isRest crossed
                  exact ⟨stack, isBehind, List.mem_cons_of_mem _ isNext⟩
          | _ => cases isCall
      | false =>
          have rest := inductionHypothesis wellMade valid
          rw [visitsBehind_other isCall, noneCollects, passEdge?_of_not_collecting]
          refine ⟨rest.wellMade, rest.grows, ?_, ?_⟩
          · intro next member
            rcases List.mem_append.mp member with isFirst | isRest
            · rw [Option.mem_toList, Option.map_eq_some_iff] at isFirst
              obtain ⟨behind, isBehind, rfl⟩ := isFirst
              simp only [Option.ite_none_right_eq_some, Option.some.injEq] at isBehind
              obtain ⟨passes, rfl⟩ := isBehind
              exact ⟨edge, List.mem_cons_self, _, .pass passes, rest.grows.valid valid, rfl⟩
            · obtain ⟨other, isOther, leads⟩ := rest.leads next isRest
              exact ⟨other, List.mem_cons_of_mem _ isOther, leads⟩
          · intro other member crossed
            rcases List.mem_cons.mp member with rfl | isRest
            · have passes : other.isPassed endIsFree = true := by
                simpa [isCall] using crossed
              refine ⟨visit.configuration.stack, .pass passes, List.mem_append_left _ ?_⟩
              simp [passes, visitWith]
            · obtain ⟨stack, isBehind, isNext⟩ := rest.complete other isRest crossed
              exact ⟨stack, isBehind, List.mem_append_right _ isNext⟩

/-- The edges to follow from a configuration, with or without the shortcut at precedence loops. -/
def edgesTaken
    (network : Network)
    (shortcut : Bool)
    (configuration : Configuration)
    (store : StackStore) :
    List Edge :=
  if shortcut && roundIsRedundant network store configuration then
    (network.state configuration.state).edges.drop 1
  else
    (network.state configuration.state).edges

/-- Keep a configuration if its state needs a token, and find the visits that all its edges lead
to, or all but those that the shortcut leaves out. -/
def expandWith
    (shortcut : Bool)
    (setting : Setting)
    (endIsFree : Bool)
    (visit : Visit)
    (search : Search) :
    List Visit × Search :=
  let kept := keptFirst setting.network visit search
  let opened :=
    (visitsBehind setting kept.found.fullContext endIsFree visit
      (setting.network.state visit.configuration.state)
      (edgesTaken setting.network shortcut visit.configuration kept.store)).run kept.store
  (opened.1, { kept with store := opened.2 })

/-- Predictions take the shortcut. -/
theorem expandWith_true
    (setting : Setting)
    (endIsFree : Bool)
    (visit : Visit)
    (search : Search) :
    expandWith true setting endIsFree visit search = expand setting endIsFree visit search := by
  rw [expand_edgesToFollow]
  simp only [expandWith, edgesTaken, Bool.true_and, edgesToFollow]

/-- What is left to do while free edges are followed. -/
inductive Job
  /-- Follow a configuration, unless that was done before. -/
  | follow (visit : Visit)
  /-- Keep a configuration if its state needs a token, and follow its edges. -/
  | goAlong (visit : Visit)
  /-- Keep a configuration at the end of the outermost rule. -/
  | keep (configuration : Configuration)

/-- What an entry of a configuration's stack leaves to do at the end of a rule. -/
def jobBehind
    (fullContext : Bool)
    (visit : Visit)
    (entry : StackEntry) :
    Job :=
  match entry.returnState with
  | some returnState =>
      .follow
        { configuration :=
            { visit.configuration with
              state := returnState
              stack := entry.below
              filterSuppressed := false }
          collects := visit.collects
          depth := visit.depth - 1
          checked := false }
  | none =>
      if fullContext then
        .keep { visit.configuration with stack := StackId.empty }
      else
        .goAlong visit

/-- What is left to do for a configuration that was not followed before. -/
def jobsAt
    (network : Network)
    (fullContext : Bool)
    (store : StackStore)
    (visit : Visit) :
    List Job :=
  if goesAlongEdges network fullContext visit.configuration then
    [.goAlong visit]
  else if visit.configuration.stack = StackId.empty then
    [.keep visit.configuration]
  else
    (store.entries visit.configuration.stack).map (jobBehind fullContext visit)

namespace Job

/-- Do a job: the jobs that it leaves, and where the search has got to. -/
def perform
    (shortcut : Bool)
    (setting : Setting)
    (endIsFree : Bool)
    (search : Search) :
    Job → List Job × Search
  | follow visit =>
      if search.isKnown visit then
        ([], search)
      else
        (jobsAt setting.network search.found.fullContext search.store visit, search.mark visit)
  | goAlong visit =>
      let expanded := expandWith shortcut setting endIsFree visit search
      (expanded.1.map follow, expanded.2)
  | keep configuration => ([], search.add configuration)

/-- A job is about a stack of the store, and conditions do not count any more. -/
def IsReady
    (store : StackStore) :
    Job → Prop
  | follow visit | goAlong visit =>
      visit.collects = false ∧ store.IsIn visit.configuration.stack
  | keep configuration => store.IsIn configuration.stack

theorem IsReady.grows
    {job : Job}
    (isReady : job.IsReady store)
    (grows : store.Grows after) :
    job.IsReady after := by
  cases job with
  | follow visit | goAlong visit => exact ⟨isReady.1, grows.valid isReady.2⟩
  | keep configuration => exact grows.valid isReady

end Job

/-- Doing some jobs, and what they leave to do, one after the other comes to an end. -/
inductive Finishes
    (shortcut : Bool)
    (setting : Setting)
    (endIsFree : Bool) :
    List Job → Search → Search → Prop where
  | done
      {search : Search} :
      Finishes shortcut setting endIsFree [] search search
  | next
      {job : Job}
      {jobs : List Job}
      {search result : Search}
      (rest :
        Finishes shortcut setting endIsFree
          ((job.perform shortcut setting endIsFree search).1 ++ jobs)
          (job.perform shortcut setting endIsFree search).2 result) :
      Finishes shortcut setting endIsFree (job :: jobs) search result

namespace Finishes

theorem append
    {first second : List Job}
    (earlier : Finishes shortcut setting endIsFree first search between)
    (later : Finishes shortcut setting endIsFree second between result) :
    Finishes shortcut setting endIsFree (first ++ second) search result := by
  induction earlier with
  | done => exact later
  | next _ inductionHypothesis =>
      refine .next ?_
      have rest := inductionHypothesis later
      rw [List.append_assoc] at rest
      exact rest

end Finishes

/-- A search goes on in a store where all it has found is, each state, alternative and condition
once. -/
structure Search.IsOrderly (search : Search) : Prop extends search.Holds where
  isIndexed : search.found.IsIndexed

/-- A search has gone on: nothing of what it had is lost. -/
structure Proceeds (search result : Search) : Prop where
  isOrderly : result.IsOrderly
  grows : search.store.Grows result.store
  fullContext : result.found.fullContext = search.found.fullContext
  kept :
    ∀ {state alternative : Nat},
      search.found.HasPair state alternative → result.found.HasPair state alternative
  visited :
    ∀ {key : Configuration.Key},
      search.visited.contains key = true → result.visited.contains key = true

namespace Proceeds

theorem refl
    (isOrderly : search.IsOrderly) :
    Proceeds search search where
  isOrderly := isOrderly
  grows := .refl _
  fullContext := rfl
  kept := id
  visited := id

theorem trans
    (earlier : Proceeds search between)
    (later : Proceeds between result) :
    Proceeds search result where
  isOrderly := later.isOrderly
  grows := earlier.grows.trans later.grows
  fullContext := later.fullContext.trans earlier.fullContext
  kept := later.kept ∘ earlier.kept
  visited := later.visited ∘ earlier.visited

end Proceeds

namespace Search.IsOrderly

variable (isOrderly : search.IsOrderly)

include isOrderly

/-- Keeping a configuration adds its state and alternative. -/
theorem hasPair_add_iff
    (configuration : Configuration)
    {state alternative : Nat} :
    (search.add configuration).found.HasPair state alternative ↔
      search.found.HasPair state alternative ∨
        state = configuration.state ∧ alternative = configuration.alternative :=
  isOrderly.isIndexed.hasPair_add_iff configuration search.store

theorem proceeds_add
    {configuration : Configuration}
    (valid : search.store.IsIn configuration.stack) :
    Proceeds search (search.add configuration) := by
  have adds := isOrderly.toHolds.repeats_add valid
  exact {
    isOrderly := ⟨adds.holds, isOrderly.isIndexed.add configuration search.store⟩
    grows := adds.extension.toGrows
    fullContext := ConfigurationSet.fullContext_add ..
    kept := fun hasPair => (isOrderly.hasPair_add_iff configuration).mpr (.inl hasPair)
    visited := id }

theorem proceeds_mark
    (visit : Visit) :
    Proceeds search (search.mark visit) where
  isOrderly := by
    refine ⟨(isOrderly.toHolds.repeats_mark visit).holds, ?_⟩
    rw [found_mark]
    exact isOrderly.isIndexed
  grows := by
    rw [store_mark]
    exact .refl _
  fullContext := by rw [found_mark]
  kept hasPair := by
    rw [found_mark]
    exact hasPair
  visited isVisited := by
    unfold Search.mark
    split
    · simp [isVisited]
    · exact isVisited

theorem proceeds_keptFirst
    (network : Network)
    (valid : search.store.IsIn visit.configuration.stack) :
    Proceeds search (keptFirst network visit search) := by
  unfold keptFirst
  split
  · exact .refl isOrderly
  · exact isOrderly.proceeds_add valid

end Search.IsOrderly

/-- Expanding a configuration keeps it if its state needs a token, and opens its edges. -/
structure ExpandsTo
    (shortcut : Bool)
    (setting : Setting)
    (endIsFree : Bool)
    (visit : Visit)
    (search : Search)
    (expanded : List Visit × Search) :
    Prop where
  proceeds : Proceeds search expanded.2
  visited : expanded.2.visited = search.visited
  hasPair_iff :
    ∀ {state alternative : Nat},
      expanded.2.found.HasPair state alternative ↔
        search.found.HasPair state alternative ∨
          (setting.network.state visit.configuration.state).epsilonOnly = false ∧
            state = visit.configuration.state ∧ alternative = visit.configuration.alternative
  leads :
    ∀ next ∈ expanded.1,
      ∃ edge ∈ edgesTaken setting.network shortcut visit.configuration search.store,
        ∃ stack,
          StackBehind endIsFree expanded.2.store visit.configuration.stack edge stack ∧
            expanded.2.store.IsIn stack ∧
              next =
                visitWith setting visit (setting.network.state visit.configuration.state) edge stack
  complete :
    ∀ edge ∈ edgesTaken setting.network shortcut visit.configuration search.store,
      edge.isPassed endIsFree = true ∨ edge.isCall = true →
        ∃ stack,
          StackBehind endIsFree expanded.2.store visit.configuration.stack edge stack ∧
            visitWith setting visit (setting.network.state visit.configuration.state) edge stack ∈
              expanded.1

/-- The edges that are taken stay the same when the store grows. -/
theorem edgesTaken_grows
    {configuration : Configuration}
    (network : Network)
    (shortcut : Bool)
    (grows : store.Grows after)
    (valid : store.IsIn configuration.stack) :
    edgesTaken network shortcut configuration after =
      edgesTaken network shortcut configuration store := by
  simp only [edgesTaken, roundIsRedundant_grows network grows valid]

/-- Expanding a configuration does what it should where conditions do not count any more. -/
theorem Search.IsOrderly.expandsTo
    (isOrderly : search.IsOrderly)
    (shortcut : Bool)
    (setting : Setting)
    (endIsFree : Bool)
    (notCollecting : visit.collects = false)
    (valid : search.store.IsIn visit.configuration.stack) :
    ExpandsTo shortcut setting endIsFree visit search
      (expandWith shortcut setting endIsFree visit search) := by
  have keeps := isOrderly.proceeds_keptFirst setting.network valid
  have opens :=
    @opened_visitsBehind setting endIsFree
      (keptFirst setting.network visit search).found.fullContext visit
      (setting.network.state visit.configuration.state)
      (keptFirst setting.network visit search).store notCollecting keeps.isOrderly.wellMade
      (keeps.grows.valid valid)
      (edgesTaken setting.network shortcut visit.configuration
        (keptFirst setting.network visit search).store)
  rw [edgesTaken_grows setting.network shortcut keeps.grows valid] at opens
  simp only [expandWith, edgesTaken_grows setting.network shortcut keeps.grows valid]
  refine {
    proceeds := keeps.trans ?_
    visited := visited_keptFirst
    hasPair_iff := ?_
    leads := opens.leads
    complete := opens.complete }
  · exact {
      isOrderly :=
        ⟨⟨opens.wellMade, keeps.isOrderly.isIn.grows opens.grows⟩, keeps.isOrderly.isIndexed⟩
      grows := opens.grows
      fullContext := rfl
      kept := id
      visited := id }
  · intro state alternative
    unfold keptFirst
    split
    · rename_i isFree
      simp [isFree]
    · rename_i needsToken
      simp [needsToken, isOrderly.hasPair_add_iff]

/-- What is left to do for a configuration is ready to be done. -/
theorem isReady_jobsAt
    {network : Network}
    (wellMade : store.WellMade)
    (isReady : (Job.follow visit).IsReady store) :
    ∀ job ∈ jobsAt network fullContext store visit, job.IsReady store := by
  unfold jobsAt
  split
  · exact List.forall_mem_singleton.mpr isReady
  · split
    · exact List.forall_mem_singleton.mpr isReady.2
    · intro job member
      obtain ⟨entry, isEntry, rfl⟩ := List.mem_map.mp member
      have validBelow := wellMade.below_valid isReady.2 isEntry
      unfold jobBehind
      split
      · exact ⟨isReady.1, validBelow⟩
      · split
        · exact wellMade.empty_valid
        · exact isReady

namespace Job

/-- Doing a job loses nothing, and what it leaves to do is ready to be done. -/
theorem IsReady.perform
    {job : Job}
    (isReady : job.IsReady search.store)
    (shortcut : Bool)
    (setting : Setting)
    (endIsFree : Bool)
    (isOrderly : search.IsOrderly) :
    Proceeds search (job.perform shortcut setting endIsFree search).2 ∧
      ∀ next ∈ (job.perform shortcut setting endIsFree search).1,
        next.IsReady (job.perform shortcut setting endIsFree search).2.store := by
  cases job with
  | follow visit =>
      simp only [Job.perform]
      split
      · exact ⟨.refl isOrderly, by simp⟩
      · refine ⟨isOrderly.proceeds_mark visit, ?_⟩
        rw [store_mark]
        exact isReady_jobsAt isOrderly.wellMade isReady
  | goAlong visit =>
      have expandsTo := isOrderly.expandsTo shortcut setting endIsFree isReady.1 isReady.2
      refine ⟨expandsTo.proceeds, ?_⟩
      intro next member
      obtain ⟨other, isOther, rfl⟩ := List.mem_map.mp member
      obtain ⟨edge, _, stack, _, isIn, rfl⟩ := expandsTo.leads other isOther
      exact ⟨collects_visitWith, stack_visitWith.symm ▸ isIn⟩
  | keep configuration => exact ⟨isOrderly.proceeds_add isReady, by simp [Job.perform]⟩

theorem perform_follow_of_known
    (isKnown : search.isKnown visit = true) :
    (follow visit).perform shortcut setting endIsFree search = ([], search) :=
  if_pos isKnown

theorem perform_follow_of_new
    (isNew : search.isKnown visit = false) :
    (follow visit).perform shortcut setting endIsFree search =
      (jobsAt setting.network search.found.fullContext search.store visit, search.mark visit) :=
  if_neg (by simp [isNew])

/-- Doing the first of some jobs loses nothing, and all that is left to do is ready to be done. -/
theorem areReady_perform
    {job : Job}
    {jobs : List Job}
    (areReady : ∀ next ∈ job :: jobs, next.IsReady search.store)
    (shortcut : Bool)
    (setting : Setting)
    (endIsFree : Bool)
    (isOrderly : search.IsOrderly) :
    Proceeds search (job.perform shortcut setting endIsFree search).2 ∧
      ∀ next ∈ (job.perform shortcut setting endIsFree search).1 ++ jobs,
        next.IsReady (job.perform shortcut setting endIsFree search).2.store := by
  obtain ⟨isReady, restAreReady⟩ := List.forall_mem_cons.mp areReady
  obtain ⟨proceeds, leftAreReady⟩ := isReady.perform shortcut setting endIsFree isOrderly
  exact ⟨proceeds, List.forall_mem_append.mpr
    ⟨leftAreReady, fun next isRest => (restAreReady next isRest).grows proceeds.grows⟩⟩

end Job

/-- Doing some jobs to the end loses nothing. -/
theorem Finishes.proceeds
    {jobs : List Job}
    (finishes : Finishes shortcut setting endIsFree jobs search result)
    (isOrderly : search.IsOrderly)
    (areReady : ∀ job ∈ jobs, job.IsReady search.store) :
    Proceeds search result := by
  induction finishes with
  | done => exact .refl isOrderly
  | next _ inductionHypothesis =>
      obtain ⟨proceeds, leftAreReady⟩ :=
        Job.areReady_perform areReady shortcut setting endIsFree isOrderly
      exact proceeds.trans (inductionHypothesis proceeds.isOrderly leftAreReady)

end Prediction

end GrammarService
