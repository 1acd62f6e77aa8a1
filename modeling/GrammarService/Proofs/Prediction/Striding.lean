import GrammarService.Proofs.Prediction.Spots

namespace GrammarService

/-!
# What strides come to is found

A configuration occupies a spot if its stack is what has to be returned along there. Doing the jobs
for a configuration takes each stride from its spot: jobs that are done find nothing but what
strides come to, and all of it, since what was entered is closed under strides.
-/

namespace Prediction

/-- What strides go over while free edges are followed with the stacks of a store. -/
abbrev Setting.ground
    (setting : Setting)
    (endIsFree fullContext : Bool)
    (origin : StackStore) :
    Ground where
  network := setting.network
  store := origin
  fullContext := fullContext
  endIsFree := endIsFree

variable
  {setting : Setting}
  {ground : Ground}
  {shortcut endIsFree fullContext : Bool}
  {visit : Visit}
  {store after : StackStore}
  {search result : Search}
  {spot next : Spot}
  {base stack below : StackId}
  {frames : List Nat}

/-- A stack has a number of returns pushed on top of another one. -/
inductive StandsOn
    (store : StackStore)
    (base : StackId) :
    List Nat → StackId → Prop where
  | base : StandsOn store base [] base
  | frame
      {frame : Nat}
      {frames : List Nat}
      {below stack : StackId}
      (isPushed : store.nodes[stack]? = some [⟨some frame, below⟩])
      (rest : StandsOn store base frames below) :
      StandsOn store base (frame :: frames) stack

namespace StandsOn

theorem grows
    (stands : StandsOn store base frames stack)
    (grows : store.Grows after) :
    StandsOn after base frames stack := by
  induction stands with
  | base => exact .base
  | frame isPushed _ inductionHypothesis => exact .frame (grows.kept isPushed) inductionHypothesis

/-- A stack whose ways to return are not a single pushed one has nothing on top of its base. -/
theorem base_of_ne
    (stands : StandsOn store base frames stack)
    (notPushed : ∀ frame below, store.nodes[stack]? ≠ some [⟨some frame, below⟩]) :
    frames = [] ∧ base = stack := by
  cases stands with
  | base => exact ⟨rfl, rfl⟩
  | frame isPushed => exact absurd isPushed (notPushed _ _)

/-- The empty stack has nothing on top of its base. -/
theorem base_of_empty
    (wellMade : store.WellMade)
    (stands : StandsOn store base frames StackId.empty) :
    frames = [] ∧ base = StackId.empty := by
  refine stands.base_of_ne fun frame below isPushed => ?_
  rw [wellMade.empty] at isPushed
  cases isPushed

/-- A stack that need not return has nothing on top of its base. -/
theorem base_of_bottom
    (stands : StandsOn store base frames stack)
    (bottoms : ⟨none, below⟩ ∈ store.entries stack) :
    frames = [] ∧ base = stack := by
  refine stands.base_of_ne fun frame below isPushed => ?_
  rw [StackStore.entries_of_getElem? isPushed, List.mem_singleton] at bottoms
  cases bottoms

end StandsOn

/-- A configuration is at a state with a stack on top of one of the store that strides go over. -/
structure Occupies
    (ground : Ground)
    (store : StackStore)
    (spot : Spot)
    (configuration : Configuration) :
    Prop where
  state : configuration.state = spot.state
  stands : StandsOn store spot.base spot.frames configuration.stack
  isIn : ground.store.IsIn spot.base

theorem Occupies.grows
    {configuration : Configuration}
    (occupies : Occupies ground store spot configuration)
    (grows : store.Grows after) :
    Occupies ground after spot configuration :=
  ⟨occupies.state, occupies.stands.grows grows, occupies.isIn⟩

namespace Occupies

variable
  {configuration : Configuration}
  (occupies : Occupies ground store spot configuration)
  (wellMade : store.WellMade)
  (grows : ground.store.Grows store)

include occupies

theorem goesAlongEdges_eq :
    goesAlongEdges ground.network fullContext configuration =
      (!decide ((ground.network.state spot.state).kind = .ruleStop) ||
        (configuration.stack = StackId.empty && !fullContext)) := by
  rw [goesAlongEdges, occupies.state]

include grows in
/-- A stack that need not return is at the bottom. -/
theorem atBottom_of_bottom
    (bottoms : ⟨none, below⟩ ∈ store.entries configuration.stack) :
    ground.AtBottom spot := by
  obtain ⟨isNil, isBase⟩ := occupies.stands.base_of_bottom bottoms
  rw [← isBase, grows.entries occupies.isIn] at bottoms
  exact ⟨isNil, .inr ⟨below, bottoms⟩⟩

include wellMade in
/-- The empty stack is at the bottom. -/
theorem atBottom_of_empty
    (isEmpty : configuration.stack = StackId.empty) :
    ground.AtBottom spot := by
  have stands := occupies.stands
  rw [isEmpty] at stands
  obtain ⟨isNil, isBase⟩ := stands.base_of_empty wellMade
  exact ⟨isNil, .inl isBase⟩

include grows in
/-- At the bottom the stack is empty or need not return. -/
theorem empty_or_bottom
    (atBottom : ground.AtBottom spot) :
    configuration.stack = StackId.empty ∨
      ∃ below, ⟨none, below⟩ ∈ store.entries configuration.stack := by
  obtain ⟨isNil, isBottom⟩ := atBottom
  have stands := occupies.stands
  have isIn := occupies.isIn
  rw [isNil] at stands
  generalize configuration.stack = stack at stands ⊢
  cases stands with
  | base =>
      rw [grows.entries isIn]
      exact isBottom

include wellMade grows in
/-- With the same stack the same rounds are left out. -/
theorem edgesTaken_eq :
    edgesTaken ground.network shortcut configuration store = ground.edgesTaken shortcut spot := by
  obtain ⟨sameState, stands, isIn⟩ := occupies
  obtain ⟨state, frames, base⟩ := spot
  dsimp only at sameState stands isIn
  have same :
      roundIsRedundant ground.network store configuration =
        ground.roundIsRedundant ⟨state, frames, base⟩ := by
    rw [roundIsRedundant_eq, sameState]
    cases frames with
    | nil =>
        generalize configuration.stack = stack at stands ⊢
        cases stands with
        | base => simp only [Ground.roundIsRedundant, grows.reachesBottom isIn, grows.entries isIn]
    | cons frame frames =>
        generalize configuration.stack = stack at stands ⊢
        cases stands with
        | frame isPushed _ =>
            have isStack : stack ≠ StackId.empty := by
              rintro rfl
              rw [wellMade.empty] at isPushed
              cases isPushed
            simp [Ground.roundIsRedundant, StackStore.reachesBottom, isStack,
              StackStore.entries_of_getElem? isPushed]
  simp only [edgesTaken, Ground.edgesTaken, same, sameState]

end Occupies

/-- What a job that is left for a configuration does at its spot. -/
inductive LeavesJob
    (ground : Ground)
    (store : StackStore)
    (spot : Spot)
    (visit : Visit) :
    Job → Prop where
  | goAlong
      (goesAlong : ground.GoesAlong spot) :
      LeavesJob ground store spot visit (.goAlong visit)
  | keep
      (keeps : ground.Keeps spot) :
      LeavesJob ground store spot visit (.keep { visit.configuration with stack := StackId.empty })
  | follow
      {next : Spot}
      {behind : Visit}
      (stride : ∀ shortcut, ground.Stride shortcut spot next)
      (occupies : Occupies ground store next behind.configuration)
      (alternative : behind.configuration.alternative = visit.configuration.alternative) :
      LeavesJob ground store spot visit (.follow behind)

section Jobs

variable
  (occupies : Occupies ground store spot visit.configuration)
  (wellMade : store.WellMade)
  (grows : ground.store.Grows store)

include occupies wellMade grows

/-- At the end of a rule an entry of the stack is returned along, or is the bottom. -/
theorem leavesJob_jobBehind
    {entry : StackEntry}
    (stopped : (ground.network.state spot.state).kind = .ruleStop)
    (present : entry ∈ store.entries visit.configuration.stack) :
    LeavesJob ground store spot visit (jobBehind ground.fullContext visit entry) := by
  obtain ⟨returnState, below⟩ := entry
  cases returnState with
  | none =>
      have atBottom := occupies.atBottom_of_bottom grows present
      unfold jobBehind
      simp only
      split
      · rename_i isFull
        exact .keep (.inr ⟨isFull, stopped, atBottom⟩)
      · rename_i isWild
        exact .goAlong (.inr ⟨by simpa using isWild, atBottom⟩)
  | some follow =>
      obtain ⟨sameState, stands, isIn⟩ := occupies
      obtain ⟨state, frames, base⟩ := spot
      dsimp only at stands isIn stopped
      generalize isStack : visit.configuration.stack = stack at stands present
      cases stands with
      | base =>
          have isBelow := wellMade.below present
          rw [grows.entries isIn] at present
          exact .follow (fun _ => .under stopped present)
            ⟨rfl, .base, lt_trans isBelow isIn⟩ rfl
      | frame isPushed rest =>
          rw [StackStore.entries_of_getElem? isPushed, List.mem_singleton] at present
          cases present
          exact .follow (fun _ => .back stopped) ⟨rfl, rest, isIn⟩ rfl

/-- The jobs that are left for a configuration are about its spot. -/
theorem leavesJob_of_mem
    {job : Job}
    (member : job ∈ jobsAt ground.network ground.fullContext store visit) :
    LeavesJob ground store spot visit job := by
  unfold jobsAt at member
  rw [occupies.goesAlongEdges_eq] at member
  split at member
  · rename_i along
    rw [List.mem_singleton] at member
    subst member
    refine .goAlong ?_
    simp only [Bool.or_eq_true, Bool.not_eq_true', decide_eq_false_iff_not, Bool.and_eq_true,
      decide_eq_true_eq] at along
    exact along.imp_right fun isBottom =>
      ⟨isBottom.2, occupies.atBottom_of_empty wellMade isBottom.1⟩
  · rename_i notAlong
    simp only [Bool.or_eq_true, Bool.not_eq_true', decide_eq_false_iff_not, Bool.and_eq_true,
      decide_eq_true_eq, not_or, not_not, not_and, Bool.not_eq_false] at notAlong
    obtain ⟨stopped, full⟩ := notAlong
    split at member
    · rename_i isEmpty
      rw [List.mem_singleton] at member
      subst member
      have sameConfiguration :
          visit.configuration = { visit.configuration with stack := StackId.empty } := by
        rw [← isEmpty]
      rw [sameConfiguration]
      exact .keep (.inr ⟨full isEmpty, stopped, occupies.atBottom_of_empty wellMade isEmpty⟩)
    · obtain ⟨entry, isEntry, rfl⟩ := List.mem_map.mp member
      exact leavesJob_jobBehind occupies wellMade grows stopped isEntry

/-- Where free edges are followed from a spot, that is left to do. -/
theorem goAlong_mem_jobsAt
    (goesAlong : ground.GoesAlong spot) :
    .goAlong visit ∈ jobsAt ground.network ground.fullContext store visit := by
  unfold jobsAt
  rw [occupies.goesAlongEdges_eq]
  rcases goesAlong with inside | ⟨isWild, atBottom⟩
  · simp [inside]
  · rcases occupies.empty_or_bottom grows atBottom with isEmpty | ⟨below, bottoms⟩
    · simp [isEmpty, isWild]
    · split
      · exact List.mem_singleton_self _
      · rw [if_neg]
        · exact List.mem_map.mpr ⟨_, bottoms, by simp [jobBehind, isWild]⟩
        · intro isEmpty
          rw [isEmpty, wellMade.entries_empty] at bottoms
          cases bottoms

omit wellMade in
/-- Where the end of the outermost rule is kept, that is left to do. -/
theorem keep_mem_jobsAt
    (isFull : ground.fullContext = true)
    (stopped : (ground.network.state spot.state).kind = .ruleStop)
    (atBottom : ground.AtBottom spot) :
    .keep { visit.configuration with stack := StackId.empty } ∈
      jobsAt ground.network ground.fullContext store visit := by
  unfold jobsAt
  rw [occupies.goesAlongEdges_eq]
  simp only [stopped, isFull, decide_true, Bool.not_true, Bool.and_false, Bool.or_false,
    Bool.false_eq_true, if_false]
  split
  · rename_i isEmpty
    rw [List.mem_singleton, ← isEmpty]
  · rename_i isStack
    rcases occupies.empty_or_bottom grows atBottom with isEmpty | ⟨below, bottoms⟩
    · exact absurd isEmpty isStack
    · exact List.mem_map.mpr ⟨_, bottoms, by simp [jobBehind]⟩

omit grows in
/-- Returning along an entry of the stack is left to do at the end of a rule. -/
theorem follow_mem_jobsAt
    {follow : Nat}
    (stopped : (ground.network.state spot.state).kind = .ruleStop)
    (present : ⟨some follow, below⟩ ∈ store.entries visit.configuration.stack) :
    ∃ behind,
      .follow behind ∈ jobsAt ground.network ground.fullContext store visit ∧
        behind.configuration.state = follow ∧
          behind.configuration.alternative = visit.configuration.alternative ∧
            behind.configuration.stack = below := by
  have isStack : visit.configuration.stack ≠ StackId.empty := by
    intro isEmpty
    rw [isEmpty, wellMade.entries_empty] at present
    cases present
  unfold jobsAt
  rw [occupies.goesAlongEdges_eq]
  simp only [stopped, isStack, decide_true, Bool.not_true, decide_false, Bool.false_and,
    Bool.or_false, Bool.false_eq_true, if_false]
  exact ⟨_, List.mem_map.mpr ⟨_, present, rfl⟩, rfl, rfl, rfl⟩

end Jobs

/-- A stride along an edge leads to the spot that is occupied behind it. -/
theorem StackBehind.exists_stride
    {configuration behind : Configuration}
    {edge : Edge}
    (behindEdge : StackBehind ground.endIsFree after configuration.stack edge behind.stack)
    (occupies : Occupies ground store spot configuration)
    (grows : store.Grows after)
    (goesAlong : ground.GoesAlong spot)
    (present : edge ∈ ground.edgesTaken shortcut spot)
    (isTarget : behind.state = edge.target) :
    ∃ next, ground.Stride shortcut spot next ∧ Occupies ground after next behind := by
  obtain ⟨sameState, stands, isIn⟩ := occupies
  obtain ⟨state, frames, base⟩ := spot
  generalize isBehind : behind.stack = stack at behindEdge
  cases behindEdge with
  | pass passes =>
      exact ⟨_, .edge goesAlong present passes, isTarget, isBehind ▸ stands.grows grows, isIn⟩
  | call isPushed =>
      exact ⟨_, .call goesAlong present, isTarget,
        isBehind ▸ .frame isPushed (stands.grows grows), isIn⟩

/-- What a job is about is among some spots for its alternative. -/
def Job.IsWithin
    (ground : Ground)
    (within : Nat → Spot → Prop)
    (store : StackStore) :
    Job → Prop
  | follow visit =>
      ∃ spot,
        within visit.configuration.alternative spot ∧ Occupies ground store spot visit.configuration
  | goAlong visit =>
      ∃ spot,
        within visit.configuration.alternative spot ∧
          Occupies ground store spot visit.configuration ∧ ground.GoesAlong spot
  | keep configuration =>
      ∃ spot,
        within configuration.alternative spot ∧
          ground.Keeps spot ∧ spot.state = configuration.state

theorem Job.IsWithin.grows
    {within : Nat → Spot → Prop}
    {job : Job}
    (isWithin : job.IsWithin ground within store)
    (grows : store.Grows after) :
    job.IsWithin ground within after := by
  cases job with
  | follow visit =>
      obtain ⟨spot, isSpot, occupies⟩ := isWithin
      exact ⟨spot, isSpot, occupies.grows grows⟩
  | goAlong visit =>
      obtain ⟨spot, isSpot, occupies, goesAlong⟩ := isWithin
      exact ⟨spot, isSpot, occupies.grows grows, goesAlong⟩
  | keep configuration => exact isWithin

/-- Spots that no stride leads out of. -/
structure ClosedUnderStrides
    (ground : Ground)
    (shortcut : Bool)
    (within : Nat → Spot → Prop) :
    Prop where
  stride :
    ∀ {alternative : Nat} {first second : Spot},
      within alternative first → ground.Stride shortcut first second → within alternative second

/-- A state and alternative are those of a spot at which they are kept. -/
def KeptWithin
    (ground : Ground)
    (within : Nat → Spot → Prop)
    (state alternative : Nat) :
    Prop :=
  ∃ spot, within alternative spot ∧ ground.Keeps spot ∧ spot.state = state

section Within

variable
  {origin : StackStore}
  {within : Nat → Spot → Prop}
  {state alternative : Nat}

/-- Doing a job among some spots finds nothing but what they keep, and what it leaves to do is
among them. -/
theorem Job.IsWithin.perform
    {job : Job}
    (closed :
      ClosedUnderStrides (setting.ground endIsFree search.found.fullContext origin) shortcut within)
    (isWithin :
      job.IsWithin (setting.ground endIsFree search.found.fullContext origin) within search.store)
    (isReady : job.IsReady search.store)
    (isOrderly : search.IsOrderly)
    (grows : origin.Grows search.store) :
    (∀ next ∈ (job.perform shortcut setting endIsFree search).1,
        next.IsWithin (setting.ground endIsFree search.found.fullContext origin) within
          (job.perform shortcut setting endIsFree search).2.store) ∧
      ((job.perform shortcut setting endIsFree search).2.found.HasPair state alternative →
        search.found.HasPair state alternative ∨
          KeptWithin (setting.ground endIsFree search.found.fullContext origin) within state
            alternative) := by
  cases job with
  | follow visit =>
      cases isKnown : search.isKnown visit with
      | true =>
          rw [Job.perform_follow_of_known isKnown]
          exact ⟨by simp, .inl⟩
      | false =>
          rw [Job.perform_follow_of_new isKnown, found_mark, store_mark]
          refine ⟨?_, .inl⟩
          intro next member
          obtain ⟨spot, isSpot, occupies⟩ := isWithin
          cases leavesJob_of_mem occupies isOrderly.wellMade grows member with
          | goAlong goesAlong => exact ⟨spot, isSpot, occupies, goesAlong⟩
          | keep keeps => exact ⟨spot, isSpot, keeps, occupies.state.symm⟩
          | follow stride occupies sameAlternative =>
              exact ⟨_, sameAlternative ▸ closed.stride isSpot (stride shortcut), occupies⟩
  | goAlong visit =>
      obtain ⟨spot, isSpot, occupies, goesAlong⟩ := isWithin
      have expandsTo :=
        isOrderly.expandsTo shortcut setting endIsFree isReady.1 isReady.2
      constructor
      · intro next member
        obtain ⟨other, isOther, rfl⟩ := List.mem_map.mp member
        obtain ⟨edge, present, stack, behind, _, rfl⟩ := expandsTo.leads other isOther
        rw [occupies.edgesTaken_eq isOrderly.wellMade grows] at present
        generalize isNext :
          visitWith setting visit (setting.network.state visit.configuration.state) edge stack = other
        have behindEdge :
            StackBehind endIsFree (expandWith shortcut setting endIsFree visit search).2.store
              visit.configuration.stack edge other.configuration.stack := by
          rw [← isNext, stack_visitWith]
          exact behind
        obtain ⟨behindSpot, stride, occupiesBehind⟩ :=
          behindEdge.exists_stride occupies expandsTo.proceeds.grows goesAlong present
            (isNext ▸ state_visitWith)
        have sameAlternative :
            other.configuration.alternative = visit.configuration.alternative :=
          isNext ▸ alternative_visitWith
        exact ⟨behindSpot, sameAlternative ▸ closed.stride isSpot stride, occupiesBehind⟩
      · intro hasPair
        refine (expandsTo.hasPair_iff.mp hasPair).imp_right ?_
        rintro ⟨needsToken, rfl, rfl⟩
        rw [occupies.state] at needsToken ⊢
        exact ⟨spot, isSpot, .inl ⟨goesAlong, needsToken⟩, rfl⟩
  | keep configuration =>
      refine ⟨by simp [Job.perform], fun hasPair => ?_⟩
      refine ((isOrderly.hasPair_add_iff configuration).mp hasPair).imp_right ?_
      rintro ⟨rfl, rfl⟩
      exact isWithin

/-- Jobs that are done among some spots find nothing but what they keep. -/
theorem Finishes.hasPair_or_kept
    {jobs : List Job}
    (finishes : Finishes shortcut setting endIsFree jobs search result)
    (closed :
      ClosedUnderStrides (setting.ground endIsFree search.found.fullContext origin) shortcut within)
    (areWithin :
      ∀ job ∈ jobs,
        job.IsWithin (setting.ground endIsFree search.found.fullContext origin) within search.store)
    (areReady : ∀ job ∈ jobs, job.IsReady search.store)
    (isOrderly : search.IsOrderly)
    (grows : origin.Grows search.store)
    (hasPair : result.found.HasPair state alternative) :
    search.found.HasPair state alternative ∨
      KeptWithin (setting.ground endIsFree search.found.fullContext origin) within state
        alternative := by
  induction finishes with
  | done => exact .inl hasPair
  | @next job jobs search result _ inductionHypothesis =>
      obtain ⟨isWithin, restAreWithin⟩ := List.forall_mem_cons.mp areWithin
      obtain ⟨proceeds, leftAreReady⟩ :=
        Job.areReady_perform areReady shortcut setting endIsFree isOrderly
      obtain ⟨leftAreWithin, finds⟩ :=
        isWithin.perform closed (areReady job List.mem_cons_self) isOrderly grows
      rw [proceeds.fullContext] at inductionHypothesis
      rcases inductionHypothesis closed
          (List.forall_mem_append.mpr
            ⟨leftAreWithin, fun next isRest => (restAreWithin next isRest).grows proceeds.grows⟩)
          leftAreReady proceeds.isOrderly (grows.trans proceeds.grows) hasPair with
        isThere | isKept
      · exact finds isThere
      · exact .inr isKept

end Within

/-- A search knows that a state was followed with an alternative and a stack. -/
def Search.Knows
    (search : Search)
    (state alternative : Nat)
    (stack : StackId) :
    Prop :=
  ∃ key,
    search.visited.contains key = true ∧
      key.state = state ∧ key.alternative = alternative ∧ key.stack = stack

/-- A job is done: what it leads to was entered or is found. -/
def Job.IsDone
    (shortcut : Bool)
    (setting : Setting)
    (endIsFree : Bool)
    (result : Search)
    (entered : Nat → Nat → StackId → Prop) :
    Job → Prop
  | follow visit =>
      entered visit.configuration.state visit.configuration.alternative visit.configuration.stack
  | goAlong visit =>
      ((setting.network.state visit.configuration.state).epsilonOnly = false →
          result.found.HasPair visit.configuration.state visit.configuration.alternative) ∧
        ∀ edge ∈ edgesTaken setting.network shortcut visit.configuration result.store,
          edge.isPassed endIsFree = true ∨ edge.isCall = true →
            ∃ stack,
              StackBehind endIsFree result.store visit.configuration.stack edge stack ∧
                entered edge.target visit.configuration.alternative stack
  | keep configuration => result.found.HasPair configuration.state configuration.alternative

theorem Job.IsDone.more
    {entered entered' : Nat → Nat → StackId → Prop}
    {job : Job}
    (isDone : job.IsDone shortcut setting endIsFree result entered)
    (more :
      ∀ {state alternative : Nat} {stack : StackId},
        entered state alternative stack → entered' state alternative stack) :
    job.IsDone shortcut setting endIsFree result entered' := by
  cases job with
  | follow visit => exact more isDone
  | goAlong visit =>
      refine ⟨isDone.1, fun edge present crossed => ?_⟩
      obtain ⟨stack, behind, isEntered⟩ := isDone.2 edge present crossed
      exact ⟨stack, behind, more isEntered⟩
  | keep configuration => exact isDone

/-- All that a configuration which was entered leaves to do is done. -/
def IsSettled
    (shortcut : Bool)
    (setting : Setting)
    (endIsFree : Bool)
    (result : Search)
    (entered : Nat → Nat → StackId → Prop)
    (state alternative : Nat)
    (stack : StackId) :
    Prop :=
  ∃ visit : Visit,
    visit.configuration.state = state ∧
      visit.configuration.alternative = alternative ∧
        visit.configuration.stack = stack ∧
          result.store.IsIn stack ∧
            ∀ job ∈ jobsAt setting.network result.found.fullContext result.store visit,
              job.IsDone shortcut setting endIsFree result entered

theorem IsSettled.more
    {entered entered' : Nat → Nat → StackId → Prop}
    {state alternative : Nat}
    (isSettled :
      IsSettled shortcut setting endIsFree result entered state alternative stack)
    (more :
      ∀ {state alternative : Nat} {stack : StackId},
        entered state alternative stack → entered' state alternative stack) :
    IsSettled shortcut setting endIsFree result entered' state alternative stack := by
  obtain ⟨visit, sameState, sameAlternative, sameStack, isIn, areDone⟩ := isSettled
  exact ⟨visit, sameState, sameAlternative, sameStack, isIn,
    fun job member => (areDone job member).more more⟩

/-- What a configuration leaves to do stays the same when the store grows. -/
theorem jobsAt_grows
    (network : Network)
    (grows : store.Grows after)
    (valid : store.IsIn visit.configuration.stack) :
    jobsAt network fullContext after visit = jobsAt network fullContext store visit := by
  simp only [jobsAt, grows.entries valid]

/-- What is known of a search with a mark was known before, or is what is marked. -/
theorem Search.knows_of_mark
    {state alternative : Nat}
    (knows : (search.mark visit).Knows state alternative stack) :
    search.Knows state alternative stack ∨
      visit.configuration.state = state ∧
        visit.configuration.alternative = alternative ∧ visit.configuration.stack = stack := by
  obtain ⟨key, isVisited, isKey⟩ := knows
  unfold Search.mark at isVisited
  split at isVisited
  · rw [Std.HashSet.contains_insert, Bool.or_eq_true] at isVisited
    rcases isVisited with same | isVisited
    · rw [← eq_of_beq same] at isKey
      exact .inr isKey
    · exact .inl ⟨key, isVisited, isKey⟩
  · exact .inl ⟨key, isVisited, isKey⟩

/--
Jobs that are done to the end are accounted for by what was entered: all that the jobs lead to was
entered or known before, and of what was entered nothing is left to do.
-/
structure Accounts
    (shortcut : Bool)
    (setting : Setting)
    (endIsFree : Bool)
    (result search : Search)
    (jobs : List Job)
    (entered : Nat → Nat → StackId → Prop) :
    Prop where
  areDone :
    ∀ job ∈ jobs,
      job.IsDone shortcut setting endIsFree result fun state alternative stack =>
        entered state alternative stack ∨ search.Knows state alternative stack
  settled :
    ∀ {state alternative : Nat} {stack : StackId},
      entered state alternative stack →
        IsSettled shortcut setting endIsFree result
          (fun state alternative stack =>
            entered state alternative stack ∨ search.Knows state alternative stack)
          state alternative stack

namespace Accounts

variable
  {jobs : List Job}
  {entered : Nat → Nat → StackId → Prop}

/-- What accounts for the jobs after keeping a configuration accounts for keeping it, too. -/
theorem keep
    {configuration : Configuration}
    (accounts :
      Accounts shortcut setting endIsFree result (search.add configuration) jobs entered)
    (isOrderly : search.IsOrderly)
    (later : Proceeds (search.add configuration) result) :
    Accounts shortcut setting endIsFree result search (.keep configuration :: jobs) entered := by
  refine ⟨List.forall_mem_cons.mpr ⟨?_, accounts.areDone⟩, accounts.settled⟩
  exact later.kept ((isOrderly.hasPair_add_iff configuration).mpr (.inr ⟨rfl, rfl⟩))

/-- What accounts for the jobs behind some edges accounts for going along these edges. -/
theorem goAlong
    (accounts :
      Accounts shortcut setting endIsFree result
        ((Job.goAlong visit).perform shortcut setting endIsFree search).2
        (((Job.goAlong visit).perform shortcut setting endIsFree search).1 ++ jobs) entered)
    (isOrderly : search.IsOrderly)
    (isReady : (Job.goAlong visit).IsReady search.store)
    (later :
      Proceeds ((Job.goAlong visit).perform shortcut setting endIsFree search).2 result) :
    Accounts shortcut setting endIsFree result search (.goAlong visit :: jobs) entered := by
  have expandsTo := isOrderly.expandsTo shortcut setting endIsFree isReady.1 isReady.2
  have grows := expandsTo.proceeds.grows.trans later.grows
  have sameKnown {state alternative : Nat} {stack : StackId}
      (reached :
        entered state alternative stack ∨
          ((Job.goAlong visit).perform shortcut setting endIsFree search).2.Knows state
            alternative stack) :
      entered state alternative stack ∨ search.Knows state alternative stack := by
    refine reached.imp_right fun ⟨key, isVisited, isKey⟩ => ⟨key, ?_, isKey⟩
    rw [← expandsTo.visited]
    exact isVisited
  obtain ⟨leftAreDone, restAreDone⟩ := List.forall_mem_append.mp accounts.areDone
  refine ⟨List.forall_mem_cons.mpr ⟨⟨?_, ?_⟩, ?_⟩, ?_⟩
  · intro needsToken
    exact later.kept (expandsTo.hasPair_iff.mpr (.inr ⟨needsToken, rfl, rfl⟩))
  · intro edge present crossed
    rw [edgesTaken_grows setting.network shortcut grows isReady.2] at present
    obtain ⟨stack, behind, isNext⟩ := expandsTo.complete edge present crossed
    have isDone := leftAreDone _ (List.mem_map_of_mem isNext)
    refine ⟨stack, behind.grows later.grows, sameKnown ?_⟩
    simpa [Job.IsDone] using isDone
  · exact fun job member => (restAreDone job member).more sameKnown
  · exact fun isEntered => (accounts.settled isEntered).more sameKnown

/-- What accounts for the other jobs accounts for following what is known already. -/
theorem follow_of_known
    (accounts : Accounts shortcut setting endIsFree result search jobs entered)
    (isKnown : search.isKnown visit = true) :
    Accounts shortcut setting endIsFree result search (.follow visit :: jobs) entered := by
  refine ⟨List.forall_mem_cons.mpr ⟨.inr ?_, accounts.areDone⟩, accounts.settled⟩
  rw [Search.isKnown, Bool.and_eq_true] at isKnown
  exact ⟨_, isKnown.2, rfl, rfl, rfl⟩

/-- What is followed is entered, together with all that accounts for what it leaves to do. -/
theorem follow_of_new
    (accounts :
      Accounts shortcut setting endIsFree result (search.mark visit)
        (jobsAt setting.network search.found.fullContext search.store visit ++ jobs) entered)
    (isReady : (Job.follow visit).IsReady search.store)
    (proceeds : Proceeds search result) :
    Accounts shortcut setting endIsFree result search (.follow visit :: jobs)
      fun state alternative stack =>
        entered state alternative stack ∨
          visit.configuration.state = state ∧
            visit.configuration.alternative = alternative ∧ visit.configuration.stack = stack := by
  have more {state alternative : Nat} {stack : StackId}
      (reached :
        entered state alternative stack ∨ (search.mark visit).Knows state alternative stack) :
      (entered state alternative stack ∨
          visit.configuration.state = state ∧
            visit.configuration.alternative = alternative ∧ visit.configuration.stack = stack) ∨
        search.Knows state alternative stack := by
    rcases reached with isEntered | knows
    · exact .inl (.inl isEntered)
    · exact (Search.knows_of_mark knows).elim .inr fun isHere => .inl (.inr isHere)
  obtain ⟨leftAreDone, restAreDone⟩ := List.forall_mem_append.mp accounts.areDone
  refine ⟨List.forall_mem_cons.mpr ⟨.inl (.inr ⟨rfl, rfl, rfl⟩), ?_⟩, ?_⟩
  · exact fun job member => (restAreDone job member).more more
  · rintro state alternative stack (isEntered | ⟨rfl, rfl, rfl⟩)
    · exact (accounts.settled isEntered).more more
    · refine ⟨visit, rfl, rfl, rfl, proceeds.grows.valid isReady.2, ?_⟩
      rw [proceeds.fullContext, jobsAt_grows setting.network proceeds.grows isReady.2]
      exact fun job member => (leftAreDone job member).more more

end Accounts

/-- When jobs are done to the end, what was entered accounts for them. -/
theorem Finishes.exists_accounts
    {jobs : List Job}
    (finishes : Finishes shortcut setting endIsFree jobs search result)
    (areReady : ∀ job ∈ jobs, job.IsReady search.store)
    (isOrderly : search.IsOrderly) :
    ∃ entered, Accounts shortcut setting endIsFree result search jobs entered := by
  have proceeds := finishes.proceeds isOrderly areReady
  induction finishes with
  | done => exact ⟨fun _ _ _ => False, by simp, by simp⟩
  | @next job jobs search result rest inductionHypothesis =>
      have isReady := areReady job List.mem_cons_self
      obtain ⟨first, leftAreReady⟩ :=
        Job.areReady_perform areReady shortcut setting endIsFree isOrderly
      have later := rest.proceeds first.isOrderly leftAreReady
      obtain ⟨entered, accounts⟩ := inductionHypothesis leftAreReady first.isOrderly later
      cases job with
      | keep configuration => exact ⟨entered, accounts.keep isOrderly later⟩
      | goAlong visit => exact ⟨entered, accounts.goAlong isOrderly isReady later⟩
      | follow visit =>
          cases isKnown : search.isKnown visit with
          | true =>
              rw [Job.perform_follow_of_known isKnown] at accounts
              exact ⟨entered, accounts.follow_of_known isKnown⟩
          | false =>
              rw [Job.perform_follow_of_new isKnown] at accounts
              exact ⟨_, accounts.follow_of_new isReady proceeds⟩

section Entered

variable
  {origin : StackStore}
  {entered : Nat → Nat → StackId → Prop}
  {alternative : Nat}
  (settled :
    ∀ {state alternative : Nat} {stack : StackId},
      entered state alternative stack →
        IsSettled shortcut setting endIsFree result entered state alternative stack)
  (wellMade : result.store.WellMade)
  (grows : origin.Grows result.store)

/-- A configuration that occupies a spot was entered. -/
def EntersAt
    (ground : Ground)
    (store : StackStore)
    (entered : Nat → Nat → StackId → Prop)
    (alternative : Nat)
    (spot : Spot) :
    Prop :=
  ∃ stack,
    entered spot.state alternative stack ∧
      StandsOn store spot.base spot.frames stack ∧ ground.store.IsIn spot.base

include settled wellMade grows

/-- What was entered is closed under strides. -/
theorem EntersAt.stride
    {first second : Spot}
    (enters :
      EntersAt (setting.ground endIsFree result.found.fullContext origin) result.store entered
        alternative first)
    (stride :
      (setting.ground endIsFree result.found.fullContext origin).Stride shortcut first second) :
    EntersAt (setting.ground endIsFree result.found.fullContext origin) result.store entered
      alternative second := by
  obtain ⟨stack, isEntered, stands, isIn⟩ := enters
  obtain ⟨visit, sameState, rfl, rfl, _, areDone⟩ := settled isEntered
  have occupies :
      Occupies (setting.ground endIsFree result.found.fullContext origin) result.store first
        visit.configuration :=
    ⟨sameState, stands, isIn⟩
  cases stride with
  | edge goesAlong present passes =>
      rw [← occupies.edgesTaken_eq wellMade grows] at present
      obtain ⟨stack, behind, isEnteredBehind⟩ :=
        (areDone _ (goAlong_mem_jobsAt occupies wellMade grows goesAlong)).2 _ present (.inl passes)
      cases behind with
      | pass => exact ⟨_, isEnteredBehind, stands, isIn⟩
      | call => cases Edge.not_isCall_of_isPassed passes
  | call goesAlong present =>
      rw [← occupies.edgesTaken_eq wellMade grows] at present
      obtain ⟨stack, behind, isEnteredBehind⟩ :=
        (areDone _ (goAlong_mem_jobsAt occupies wellMade grows goesAlong)).2 _ present (.inr rfl)
      cases behind with
      | pass passes => cases Edge.not_isCall_of_isPassed passes
      | call isPushed => exact ⟨_, isEnteredBehind, .frame isPushed stands, isIn⟩
  | @back _ frame _ _ stopped =>
      generalize isStack : visit.configuration.stack = stack at stands
      cases stands with
      | @frame _ _ below _ isPushed rest =>
          have present : ⟨some frame, below⟩ ∈ result.store.entries visit.configuration.stack := by
            rw [isStack, StackStore.entries_of_getElem? isPushed]
            exact List.mem_singleton_self _
          obtain ⟨behind, isLeft, rfl, isAlternative, rfl⟩ :=
            follow_mem_jobsAt occupies wellMade stopped present
          exact ⟨_, isAlternative ▸ areDone _ isLeft, rest, isIn⟩
  | @under _ follow _ below stopped present =>
      generalize isStack : visit.configuration.stack = stack at stands
      cases stands with
      | base =>
          have isPresent : ⟨some follow, below⟩ ∈ result.store.entries visit.configuration.stack := by
            rw [isStack, grows.entries isIn]
            exact present
          obtain ⟨behind, isLeft, rfl, isAlternative, rfl⟩ :=
            follow_mem_jobsAt occupies wellMade stopped isPresent
          have isBelow := wellMade.below isPresent
          rw [isStack] at isBelow
          exact ⟨_, isAlternative ▸ areDone _ isLeft, .base, lt_trans isBelow isIn⟩

/-- What was entered and is kept is found. -/
theorem EntersAt.hasPair
    (enters :
      EntersAt (setting.ground endIsFree result.found.fullContext origin) result.store entered
        alternative spot)
    (keeps : (setting.ground endIsFree result.found.fullContext origin).Keeps spot) :
    result.found.HasPair spot.state alternative := by
  obtain ⟨stack, isEntered, stands, isIn⟩ := enters
  obtain ⟨visit, sameState, rfl, rfl, _, areDone⟩ := settled isEntered
  have occupies :
      Occupies (setting.ground endIsFree result.found.fullContext origin) result.store spot
        visit.configuration :=
    ⟨sameState, stands, isIn⟩
  rw [← sameState]
  rcases keeps with ⟨goesAlong, needsToken⟩ | ⟨isFull, stopped, atBottom⟩
  · rw [← sameState] at needsToken
    exact (areDone _ (goAlong_mem_jobsAt occupies wellMade grows goesAlong)).1 needsToken
  · exact areDone _ (keep_mem_jobsAt occupies grows isFull stopped atBottom)

end Entered

/-- The jobs of following free edges from some configurations, where conditions do not count. -/
def jobsFrom (origins : List Configuration) : List Job :=
  origins.map fun origin => .follow (.outset false origin)

/-- The spot at which a configuration begins to be followed. -/
def spotOf (configuration : Configuration) : Spot where
  state := configuration.state
  frames := []
  base := configuration.stack

/--
Following free edges from some configurations to the end finds the states that strides from there
come to and that are kept, each with the alternative of the configuration.
-/
theorem Finishes.hasPair_iff
    {origins : List Configuration}
    {state alternative : Nat}
    (finishes : Finishes shortcut setting endIsFree (jobsFrom origins) search result)
    (isOrderly : search.IsOrderly)
    (unvisited : search.visited = ∅)
    (areIn : ∀ origin ∈ origins, search.store.IsIn origin.stack) :
    result.found.HasPair state alternative ↔
      search.found.HasPair state alternative ∨
        ∃ origin ∈ origins,
          origin.alternative = alternative ∧
            ∃ spot,
              (setting.ground endIsFree search.found.fullContext search.store).Reaches shortcut
                  (spotOf origin) spot ∧
                (setting.ground endIsFree search.found.fullContext search.store).Keeps spot ∧
                  spot.state = state := by
  have areReady : ∀ job ∈ jobsFrom origins, job.IsReady search.store := by
    intro job member
    obtain ⟨origin, isOrigin, rfl⟩ := List.mem_map.mp member
    exact ⟨rfl, areIn origin isOrigin⟩
  have proceeds := finishes.proceeds isOrderly areReady
  constructor
  · intro hasPair
    let within (alternative : Nat) (spot : Spot) : Prop :=
      ∃ origin ∈ origins,
        origin.alternative = alternative ∧
          (setting.ground endIsFree search.found.fullContext search.store).Reaches shortcut
            (spotOf origin) spot
    have closed :
        ClosedUnderStrides (setting.ground endIsFree search.found.fullContext search.store) shortcut
          within :=
      ⟨fun ⟨origin, isOrigin, isAlternative, reaches⟩ stride =>
        ⟨origin, isOrigin, isAlternative, reaches.tail stride⟩⟩
    have areWithin :
        ∀ job ∈ jobsFrom origins,
          job.IsWithin (setting.ground endIsFree search.found.fullContext search.store) within
            search.store := by
      intro job member
      obtain ⟨origin, isOrigin, rfl⟩ := List.mem_map.mp member
      exact ⟨spotOf origin, ⟨origin, isOrigin, rfl, .refl⟩, rfl, .base, areIn origin isOrigin⟩
    have kept :=
      finishes.hasPair_or_kept closed areWithin areReady isOrderly (.refl _) hasPair
    refine kept.imp_right ?_
    rintro ⟨spot, ⟨origin, isOrigin, isAlternative, reaches⟩, keeps, isState⟩
    exact ⟨origin, isOrigin, isAlternative, spot, reaches, keeps, isState⟩
  · rintro (isThere | ⟨origin, isOrigin, rfl, spot, reaches, keeps, rfl⟩)
    · exact proceeds.kept isThere
    · obtain ⟨entered, areDone, settled⟩ := finishes.exists_accounts areReady isOrderly
      have notKnown {state alternative : Nat} {stack : StackId} :
          ¬ search.Knows state alternative stack := by
        rintro ⟨key, isVisited, _⟩
        simp [unvisited] at isVisited
      simp only [notKnown, or_false] at areDone settled
      rw [← proceeds.fullContext] at reaches keeps
      have begins :
          EntersAt (setting.ground endIsFree result.found.fullContext search.store) result.store
            entered origin.alternative (spotOf origin) :=
        ⟨origin.stack, areDone _ (List.mem_map_of_mem isOrigin), .base, areIn origin isOrigin⟩
      have enters :
          EntersAt (setting.ground endIsFree result.found.fullContext search.store) result.store
            entered origin.alternative spot := by
        clear keeps
        induction reaches with
        | refl => exact begins
        | tail _ stride inductionHypothesis =>
            exact inductionHypothesis.stride settled proceeds.isOrderly.wellMade proceeds.grows
              stride
      exact enters.hasPair settled proceeds.isOrderly.wellMade proceeds.grows keeps

end Prediction

end GrammarService
