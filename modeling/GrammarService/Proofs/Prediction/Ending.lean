import GrammarService.Proofs.Prediction.Striding

namespace GrammarService

/-!
# Following free edges comes to an end

Following free edges within a limit does the same as doing the jobs one by one for as long as it
takes, once the limit is high enough. In a network without loops the jobs come to an end, with or
without the shortcut at precedence loops, and the limit of predictions is high enough for them:
between two configurations that are checked a walk does not come back to a place, and only stacks
of the store, as high as the first one, are ever checked.
-/

namespace Prediction

variable
  {setting : Setting}
  {shortcut endIsFree fullContext : Bool}
  {visit : Visit}
  {store after : StackStore}
  {search between result : Search}
  {limit height span : Nat}
  {job : Job}
  {jobs : List Job}

/-- Do a job, and what it leaves to do, for ways of at most `limit` steps. -/
def Job.doWithin
    (setting : Setting)
    (endIsFree : Bool)
    (limit : Nat)
    (search : Search) :
    Job → Search
  | follow visit => Prediction.follow setting endIsFree limit visit search
  | goAlong visit => followEdges setting endIsFree limit visit search
  | keep configuration => search.add configuration

/-- Following the edges of a configuration is to do the jobs that this leaves. -/
theorem doWithin_goAlong
    (limit : Nat)
    (visit : Visit)
    (search : Search) :
    (Job.goAlong visit).doWithin setting endIsFree limit search =
      ((Job.goAlong visit).perform true setting endIsFree search).1.foldl
        (Job.doWithin setting endIsFree limit)
        ((Job.goAlong visit).perform true setting endIsFree search).2 := by
  simp only [Job.doWithin, followEdges, Job.perform, expandWith_true, List.foldl_map]

/-- Following a configuration is to do the jobs that this leaves, for ways one step shorter. -/
theorem doWithin_follow
    (limit : Nat)
    (visit : Visit)
    (search : Search) :
    (Job.follow visit).doWithin setting endIsFree (limit + 1) search =
      ((Job.follow visit).perform true setting endIsFree search).1.foldl
        (Job.doWithin setting endIsFree limit)
        ((Job.follow visit).perform true setting endIsFree search).2 := by
  rw [Job.doWithin, follow_succ_entries]
  unfold Job.perform
  simp only
  split
  · rfl
  · unfold jobsAt
    split
    · rfl
    · split
      · rfl
      · rw [List.foldl_map]
        congr 1
        funext search entry
        obtain ⟨returnState, below⟩ := entry
        unfold followEntry jobBehind
        cases returnState with
        | some returnState => rfl
        | none =>
            simp only
            split <;> rfl

/-- Once the limit is high enough, doing the first of some jobs comes to the same whatever it is. -/
theorem Finishes.exists_limit_append
    {first second : List Job}
    (finishes : Finishes true setting endIsFree jobs search result)
    (isAll : first ++ second = jobs) :
    ∃ between enough,
      (∀ limit : Nat,
        enough ≤ limit →
          first.foldl (Job.doWithin setting endIsFree limit) search = between) ∧
        (second = [] → between = result) := by
  induction finishes generalizing first second with
  | @done search =>
      obtain ⟨rfl, rfl⟩ := List.append_eq_nil_iff.mp isAll
      exact ⟨search, 0, fun _ _ => rfl, fun _ => rfl⟩
  | @next job jobs search result _ inductionHypothesis =>
      cases first with
      | nil =>
          refine ⟨search, 0, fun _ _ => rfl, ?_⟩
          rintro rfl
          cases isAll
      | cons head first =>
          simp only [List.cons_append, List.cons.injEq] at isAll
          obtain ⟨rfl, rfl⟩ := isAll
          obtain ⟨left, enoughLeft, doesLeft, -⟩ := inductionHypothesis rfl
          obtain ⟨between, enough, does, isResult⟩ :=
            inductionHypothesis (List.append_assoc _ first second)
          refine ⟨between, max enoughLeft enough + 1, ?_, isResult⟩
          intro limit high
          obtain ⟨limit, rfl⟩ : ∃ lower, limit = lower + 1 := ⟨limit - 1, by omega⟩
          have doesHead :
              head.doWithin setting endIsFree (limit + 1) search = left := by
            cases head with
            | follow visit =>
                rw [doWithin_follow]
                exact doesLeft limit (by omega)
            | goAlong visit =>
                rw [doWithin_goAlong]
                exact doesLeft (limit + 1) (by omega)
            | keep configuration => exact doesLeft limit (by omega)
          have doesAll := does (limit + 1) (by omega)
          rw [List.foldl_append, doesLeft (limit + 1) (by omega)] at doesAll
          rw [List.foldl_cons, doesHead, doesAll]

/-- Where jobs come to an end, doing them within a limit comes to the same once it is high enough. -/
theorem Finishes.exists_limit
    (finishes : Finishes true setting endIsFree jobs search result) :
    ∃ enough,
      ∀ limit : Nat,
        enough ≤ limit → jobs.foldl (Job.doWithin setting endIsFree limit) search = result := by
  obtain ⟨_, enough, does, isResult⟩ := finishes.exists_limit_append (List.append_nil jobs)
  exact ⟨enough, fun limit high => (does limit high).trans (isResult rfl)⟩

/-- Jobs come to an end, and with the shortcut they do so within the limit. -/
def EndsWithin
    (shortcut : Bool)
    (setting : Setting)
    (endIsFree : Bool)
    (limit : Nat)
    (jobs : List Job)
    (search : Search) :
    Prop :=
  ∃ result,
    Finishes shortcut setting endIsFree jobs search result ∧
      (shortcut = true → jobs.foldl (Job.doWithin setting endIsFree limit) search = result)

namespace EndsWithin

theorem keep
    (configuration : Configuration) :
    EndsWithin shortcut setting endIsFree limit [.keep configuration] search :=
  ⟨_, .next .done, fun _ => rfl⟩

/-- Following the edges of a configuration ends if what that leaves to do does. -/
theorem goAlong
    (ends :
      EndsWithin shortcut setting endIsFree limit
        ((Job.goAlong visit).perform shortcut setting endIsFree search).1
        ((Job.goAlong visit).perform shortcut setting endIsFree search).2) :
    EndsWithin shortcut setting endIsFree limit [.goAlong visit] search := by
  obtain ⟨result, finishes, isWithin⟩ := ends
  refine ⟨result, .next (by rwa [List.append_nil]), ?_⟩
  rintro rfl
  rw [List.foldl_cons, List.foldl_nil, doWithin_goAlong]
  exact isWithin rfl

/-- Following a configuration ends if what that leaves to do does, one step earlier. -/
theorem follow
    (ends :
      EndsWithin shortcut setting endIsFree limit
        ((Job.follow visit).perform shortcut setting endIsFree search).1
        ((Job.follow visit).perform shortcut setting endIsFree search).2) :
    EndsWithin shortcut setting endIsFree (limit + 1) [.follow visit] search := by
  obtain ⟨result, finishes, isWithin⟩ := ends
  refine ⟨result, .next (by rwa [List.append_nil]), ?_⟩
  rintro rfl
  rw [List.foldl_cons, List.foldl_nil, doWithin_follow]
  exact isWithin rfl

/-- Jobs end if each of them does whenever its turn comes. -/
theorem of_each
    {valid : Search → Job → Prop}
    (stays :
      ∀ {job : Job} {search result : Search},
        search.IsOrderly →
          job.IsReady search.store → Proceeds search result → valid search job → valid result job)
    (each :
      ∀ {job : Job} {search : Search},
        search.IsOrderly →
          job.IsReady search.store →
            valid search job → EndsWithin shortcut setting endIsFree limit [job] search)
    (isOrderly : search.IsOrderly)
    (areReady : ∀ job ∈ jobs, job.IsReady search.store)
    (areValid : ∀ job ∈ jobs, valid search job) :
    EndsWithin shortcut setting endIsFree limit jobs search := by
  induction jobs generalizing search with
  | nil => exact ⟨search, .done, fun _ => rfl⟩
  | cons job jobs inductionHypothesis =>
      obtain ⟨isReady, restAreReady⟩ := List.forall_mem_cons.mp areReady
      obtain ⟨isValid, restAreValid⟩ := List.forall_mem_cons.mp areValid
      obtain ⟨between, finishes, isWithin⟩ := each isOrderly isReady isValid
      have proceeds :=
        finishes.proceeds isOrderly (List.forall_mem_singleton.mpr isReady)
      obtain ⟨result, rest, restIsWithin⟩ :=
        inductionHypothesis proceeds.isOrderly
          (fun next member => (restAreReady next member).grows proceeds.grows)
          (fun next member =>
            stays isOrderly (restAreReady next member) proceeds (restAreValid next member))
      refine ⟨result, finishes.append rest, fun isTaken => ?_⟩
      rw [List.foldl_cons, ← restIsWithin isTaken, ← isWithin isTaken]
      rfl

end EndsWithin

/-- A stack is as high as the first one, with returns pushed on top of it. -/
def RisesFrom
    (height : Nat)
    (store : StackStore)
    (stack : StackId) :
    Prop :=
  ∃ base frames, base ≤ height ∧ StandsOn store base frames stack

/-- The keys of a configuration that were not followed yet are among the remaining ones. -/
def KeysRemain
    (network : Network)
    (height : Nat)
    (configuration : Configuration)
    (search : Search)
    (remaining : List Configuration.Key) :
    Prop :=
  ∀ key : Configuration.Key,
    key.alternative = configuration.alternative →
      key.condition = configuration.condition →
        key.state < network.states.size →
          key.stack ≤ height → search.visited.contains key = false → key ∈ remaining

/-- The limit is high enough for what following a configuration leaves to do. -/
structure EnoughBehind
    (network : Network)
    (height span limit : Nat)
    (configuration : Configuration)
    (search : Search) :
    Prop where
  rises : RisesFrom height search.store configuration.stack
  suffices_ :
    ∃ remaining steps,
      KeysRemain network height configuration search remaining ∧
        Walked network height steps search.store configuration ∧
          remaining.length * (span + 1) + (span - steps) ≤ limit

/-- The limit is high enough for following a visit. -/
def EnoughFor
    (network : Network)
    (height span limit : Nat)
    (visit : Visit)
    (search : Search) :
    Prop :=
  ∃ remaining,
    KeysRemain network height visit.configuration search remaining ∧
      ((visit.checked = true ∧ visit.configuration.state < network.states.size ∧
          visit.configuration.stack ≤ height ∧ remaining.length * (span + 1) + 1 ≤ limit) ∨
        (visit.checked = false ∧ RisesFrom height search.store visit.configuration.stack ∧
          ∃ steps,
            Walked network height steps search.store visit.configuration ∧
              remaining.length * (span + 1) + (span - steps) + 1 ≤ limit))

theorem KeysRemain.proceeds
    {network : Network}
    {configuration : Configuration}
    {remaining : List Configuration.Key}
    (remains : KeysRemain network height configuration search remaining)
    (proceeds : Proceeds search result) :
    KeysRemain network height configuration result remaining := by
  intro key isAlternative isCondition inBounds low notVisited
  refine remains key isAlternative isCondition inBounds low ?_
  by_contra isVisited
  rw [proceeds.visited (by simpa using isVisited)] at notVisited
  cases notVisited

theorem RisesFrom.grows
    {stack : StackId}
    (rises : RisesFrom height store stack)
    (grows : store.Grows after) :
    RisesFrom height after stack := by
  obtain ⟨base, frames, low, stands⟩ := rises
  exact ⟨base, frames, low, stands.grows grows⟩

/-- A stack that need not return is as high as the first one. -/
theorem RisesFrom.le_of_bottom
    {stack below : StackId}
    (rises : RisesFrom height store stack)
    (bottoms : ⟨none, below⟩ ∈ store.entries stack) :
    stack ≤ height := by
  obtain ⟨base, frames, low, stands⟩ := rises
  obtain ⟨-, rfl⟩ := stands.base_of_bottom bottoms
  exact low

/-- What is below a stack rises from the first one too. -/
theorem RisesFrom.below
    {stack : StackId}
    {entry : StackEntry}
    (rises : RisesFrom height store stack)
    (wellMade : store.WellMade)
    (present : entry ∈ store.entries stack) :
    RisesFrom height store entry.below := by
  obtain ⟨base, frames, low, stands⟩ := rises
  cases stands with
  | base => exact ⟨entry.below, [], le_trans (le_of_lt (wellMade.below present)) low, .base⟩
  | frame isPushed rest =>
      rw [StackStore.entries_of_getElem? isPushed, List.mem_singleton] at present
      subst present
      exact ⟨base, _, low, rest⟩

theorem EnoughBehind.proceeds
    {network : Network}
    {configuration : Configuration}
    (enough : EnoughBehind network height span limit configuration search)
    (isOrderly : search.IsOrderly)
    (valid : search.store.IsIn configuration.stack)
    (proceeds : Proceeds search result) :
    EnoughBehind network height span limit configuration result := by
  obtain ⟨rises, remaining, steps, remains, walked, high⟩ := enough
  exact ⟨rises.grows proceeds.grows, remaining, steps, remains.proceeds proceeds,
    walked.grows isOrderly.wellMade valid proceeds.grows, high⟩

theorem EnoughFor.proceeds
    {network : Network}
    (enough : EnoughFor network height span limit visit search)
    (isOrderly : search.IsOrderly)
    (valid : search.store.IsIn visit.configuration.stack)
    (proceeds : Proceeds search result) :
    EnoughFor network height span limit visit result := by
  obtain ⟨remaining, remains, isChecked | ⟨notChecked, rises, steps, walked, high⟩⟩ := enough
  · exact ⟨remaining, remains.proceeds proceeds, .inl isChecked⟩
  · exact ⟨remaining, remains.proceeds proceeds, .inr ⟨notChecked, rises.grows proceeds.grows, steps,
      walked.grows isOrderly.wellMade valid proceeds.grows, high⟩⟩

/-- The limit is high enough for doing a job. -/
def Job.HasEnough
    (network : Network)
    (height span limit : Nat)
    (search : Search) :
    Job → Prop
  | follow visit => EnoughFor network height span limit visit search
  | goAlong visit =>
      EnoughBehind network height span limit visit.configuration search ∧
        ((network.state visit.configuration.state).kind = .ruleStop →
          visit.configuration.stack ≤ height)
  | keep _ => True

theorem Job.HasEnough.proceeds
    {network : Network}
    (enough : job.HasEnough network height span limit search)
    (isOrderly : search.IsOrderly)
    (isReady : job.IsReady search.store)
    (proceeds : Proceeds search result) :
    job.HasEnough network height span limit result := by
  cases job with
  | follow visit => exact EnoughFor.proceeds enough isOrderly isReady.2 proceeds
  | goAlong visit => exact ⟨enough.1.proceeds isOrderly isReady.2 proceeds, enough.2⟩
  | keep configuration => trivial

/-- The keys that remain are those of an alternative and condition. -/
theorem KeysRemain.of_same
    {network : Network}
    {configuration other : Configuration}
    {remaining : List Configuration.Key}
    (remains : KeysRemain network height configuration search remaining)
    (sameAlternative : other.alternative = configuration.alternative)
    (sameCondition : other.condition = configuration.condition) :
    KeysRemain network height other search remaining := by
  intro key isAlternative isCondition
  exact remains key (isAlternative.trans sameAlternative) (isCondition.trans sameCondition)

/-- What is enough for a configuration is enough for a visit that is a free step behind. -/
theorem EnoughBehind.step
    {network : Network}
    {configuration : Configuration}
    (enough : EnoughBehind network height span limit configuration search)
    (spans : Spans network height span)
    (isOrderly : search.IsOrderly)
    (valid : search.store.IsIn configuration.stack)
    (sameAlternative : visit.configuration.alternative = configuration.alternative)
    (sameCondition : visit.configuration.condition = configuration.condition)
    (notChecked : visit.checked = false)
    (rises : RisesFrom height search.store visit.configuration.stack)
    (step :
      ∀ {returns : List Nat},
        search.store.Holds false visit.configuration.stack returns →
          ∃ before,
            search.store.Holds false configuration.stack before ∧
              network.FreeStep ⟨configuration.state, before⟩
                ⟨visit.configuration.state, returns⟩) :
    EnoughFor network height span limit visit search := by
  obtain ⟨_, remaining, steps, remains, walked, high⟩ := enough
  have short := walked.lt_span spans isOrderly.wellMade valid
  exact ⟨remaining, remains.of_same sameAlternative sameCondition,
    .inr ⟨notChecked, rises, steps + 1, walked.step step, by omega⟩⟩

/-- The edges that are taken are edges of the state. -/
theorem mem_of_mem_edgesTaken
    {network : Network}
    {configuration : Configuration}
    {edge : Edge}
    (present : edge ∈ edgesTaken network shortcut configuration store) :
    edge ∈ (network.state configuration.state).edges := by
  unfold edgesTaken at present
  split at present
  · exact List.mem_of_mem_drop present
  · exact present

section Enough

variable
  (spans : Spans setting.network height span)
  (isOrderly : search.IsOrderly)

include spans isOrderly

/-- What is enough for a configuration is enough for what is left to do for it. -/
theorem hasEnough_jobsAt
    (enough : EnoughBehind setting.network height span limit visit.configuration search)
    (valid : search.store.IsIn visit.configuration.stack) :
    ∀ job ∈ jobsAt setting.network fullContext search.store visit,
      job.HasEnough setting.network height span limit search := by
  unfold jobsAt
  split
  · rename_i along
    refine List.forall_mem_singleton.mpr ⟨enough, fun stopped => ?_⟩
    rw [stack_eq_empty_of_goesAlongEdges along stopped]
    exact Nat.zero_le height
  · split
    · exact List.forall_mem_singleton.mpr trivial
    · rename_i notAlong _
      have stopped := stopped_of_not_goesAlongEdges notAlong
      intro job member
      obtain ⟨⟨returnState, below⟩, present, rfl⟩ := List.mem_map.mp member
      unfold jobBehind
      split
      · rename_i follow isReturn
        cases isReturn
        refine enough.step spans isOrderly valid rfl rfl rfl
          (enough.rises.below isOrderly.wellMade present) ?_
        intro returns holds
        exact ⟨_, .entry present holds, .leave stopped⟩
      · rename_i isBottom
        cases isBottom
        split
        · trivial
        · exact ⟨enough, fun _ => enough.rises.le_of_bottom present⟩

/-- What is enough for going along the edges of a configuration is enough for what is behind. -/
theorem hasEnough_perform_goAlong
    (shaped : setting.network.RuleShaped)
    (coherent : setting.network.Coherent)
    (enough : (Job.goAlong visit).HasEnough setting.network height span limit search)
    (isReady : (Job.goAlong visit).IsReady search.store) :
    ∀ job ∈ ((Job.goAlong visit).perform shortcut setting false search).1,
      (∃ next, job = .follow next) ∧
        job.HasEnough setting.network height span limit
          ((Job.goAlong visit).perform shortcut setting false search).2 := by
  have expandsTo := isOrderly.expandsTo shortcut setting false isReady.1 isReady.2
  have proceeds := expandsTo.proceeds
  obtain ⟨enoughBehind, low⟩ := enough
  have enoughLater := enoughBehind.proceeds isOrderly isReady.2 proceeds
  have validLater := proceeds.grows.valid isReady.2
  intro job member
  obtain ⟨next, isNext, rfl⟩ := List.mem_map.mp member
  obtain ⟨edge, isTaken, stack, behind, _, rfl⟩ := expandsTo.leads next isNext
  have present := mem_of_mem_edgesTaken isTaken
  refine ⟨⟨_, rfl⟩, ?_⟩
  by_cases stopped : (setting.network.state visit.configuration.state).kind = .ruleStop
  · -- Outside all rules that were entered, what is behind an edge is checked.
    obtain ⟨_, _, _, _, follow, outermost, _, _, rfl⟩ := shaped.stopEdges stopped present
    cases behind with
    | pass =>
        obtain ⟨_, remaining, steps, remains, walked, high⟩ := enoughLater
        have short := walked.lt_span spans proceeds.isOrderly.wellMade validLater
        obtain ⟨_, isTarget, _⟩ := coherent.target present
        refine ⟨remaining,
          remains.of_same alternative_visitWith condition_visitWith,
          .inl ⟨by simp [checked_visitWith, stopped], ?_, ?_, by omega⟩⟩
        · rw [state_visitWith]
          exact (Array.getElem?_eq_some_iff.mp isTarget).1
        · rw [stack_visitWith]
          exact low stopped
  · cases behind with
    | pass passes =>
        have free : edge.isFree = true := by simpa [Edge.isPassed] using passes
        refine enoughLater.step spans proceeds.isOrderly validLater alternative_visitWith
          condition_visitWith ?_ ?_ ?_
        · simp [checked_visitWith, stopped, Edge.isEpsilon_of_isFree free]
        · rw [stack_visitWith]
          exact enoughLater.rises
        · intro returns holds
          rw [stack_visitWith] at holds
          rw [state_visitWith]
          exact ⟨returns, holds, .edge stopped present free⟩
    | @call target rule follow precedence _ isPushed =>
        refine enoughLater.step spans proceeds.isOrderly validLater alternative_visitWith
          condition_visitWith ?_ ?_ ?_
        · simp [checked_visitWith, stopped, Edge.isEpsilon]
        · obtain ⟨base, frames, isLow, stands⟩ := enoughLater.rises
          rw [stack_visitWith]
          exact ⟨base, follow :: frames, isLow, .frame isPushed stands⟩
        · intro returns holds
          rw [stack_visitWith] at holds
          rw [state_visitWith]
          obtain ⟨before, rfl, isBelow⟩ :=
            proceeds.isOrderly.wellMade.exists_holds_of_single isPushed holds
          exact ⟨before, isBelow, .call stopped present⟩

omit spans in
/-- What is enough for a visit that is followed is enough for what is behind. -/
theorem EnoughFor.behind
    (enough : EnoughFor setting.network height span (limit + 1) visit search)
    (valid : search.store.IsIn visit.configuration.stack)
    (new : search.isKnown visit = false)
    (spans : Spans setting.network height span) :
    EnoughBehind setting.network height span limit visit.configuration (search.mark visit) := by
  obtain ⟨remaining, remains, ⟨isChecked, inBounds, low, high⟩ | ⟨notChecked, rises, steps, walked, high⟩⟩ :=
    enough
  · have notVisited : search.visited.contains visit.configuration.key = false := by
      simpa [Search.isKnown, isChecked] using new
    have isRemaining : visit.configuration.key ∈ remaining :=
      remains visit.configuration.key rfl rfl inBounds low notVisited
    have isProduct := length_mul_erase isRemaining span
    refine ⟨⟨visit.configuration.stack, [], low, .base⟩,
      remaining.erase visit.configuration.key, 0, ?_, ?_, by omega⟩
    · intro key isAlternative isCondition keyInBounds keyLow keyNotVisited
      let among (key : Configuration.Key) : Prop :=
        key.alternative = visit.configuration.alternative ∧
          key.condition = visit.configuration.condition ∧
            key.state < setting.network.states.size ∧ key.stack ≤ height
      have isAmong : among key := ⟨isAlternative, isCondition, keyInBounds, keyLow⟩
      refine mem_erase_of_mark ?_ isChecked isAmong keyNotVisited
      rintro other ⟨sameAlternative, sameCondition, inBounds, isLow⟩ notVisited
      exact remains other sameAlternative sameCondition inBounds isLow notVisited
    · intro returns holds
      rw [store_mark] at holds
      exact ⟨⟨visit.configuration.state, returns⟩,
        le_trans (isOrderly.wellMade.length_le holds) low, .stay⟩
  · have short := walked.lt_span spans isOrderly.wellMade valid
    have isMark : search.mark visit = search := by
      simp [Search.mark, notChecked]
    rw [isMark]
    exact ⟨rises, remaining, steps, remains, walked, by omega⟩

end Enough

section Ends

variable
  (shaped : setting.network.RuleShaped)
  (coherent : setting.network.Coherent)
  (spans : Spans setting.network height span)

include shaped coherent spans

/-- Jobs for which the limit is high enough come to an end, if those of following a configuration
do. -/
theorem endsWithin_of_follow
    (endsFollow :
      ∀ {visit : Visit} {search : Search},
        search.IsOrderly →
          (Job.follow visit).IsReady search.store →
            (Job.follow visit).HasEnough setting.network height span limit search →
              EndsWithin shortcut setting false limit [.follow visit] search)
    (isOrderly : search.IsOrderly)
    (areReady : ∀ job ∈ jobs, job.IsReady search.store)
    (areEnough : ∀ job ∈ jobs, job.HasEnough setting.network height span limit search) :
    EndsWithin shortcut setting false limit jobs search := by
  have stays :
      ∀ {job : Job} {search result : Search},
        search.IsOrderly →
          job.IsReady search.store →
            Proceeds search result →
              job.HasEnough setting.network height span limit search →
                job.HasEnough setting.network height span limit result :=
    fun isOrderly isReady proceeds enough => enough.proceeds isOrderly isReady proceeds
  refine .of_each stays ?_ isOrderly areReady areEnough
  intro job search isOrderly isReady enough
  cases job with
  | keep configuration => exact .keep configuration
  | follow visit => exact endsFollow isOrderly isReady enough
  | goAlong visit =>
      obtain ⟨proceeds, leftAreReady⟩ := isReady.perform shortcut setting false isOrderly
      let follows (search : Search) (job : Job) : Prop :=
        (∃ next, job = .follow next) ∧ job.HasEnough setting.network height span limit search
      have followsStays :
          ∀ {job : Job} {search result : Search},
            search.IsOrderly →
              job.IsReady search.store →
                Proceeds search result → follows search job → follows result job :=
        fun isOrderly isReady proceeds ⟨isFollow, enough⟩ =>
          ⟨isFollow, stays isOrderly isReady proceeds enough⟩
      refine .goAlong (.of_each followsStays ?_ proceeds.isOrderly leftAreReady
        (hasEnough_perform_goAlong spans isOrderly shaped coherent enough isReady))
      rintro _ search isOrderly isReady ⟨⟨next, rfl⟩, enough⟩
      exact endsFollow isOrderly isReady enough

/-- Jobs for which the limit is high enough come to an end. -/
theorem endsWithin_of_hasEnough
    (shortcut : Bool)
    (limit : Nat)
    (isOrderly : search.IsOrderly)
    (areReady : ∀ job ∈ jobs, job.IsReady search.store)
    (areEnough : ∀ job ∈ jobs, job.HasEnough setting.network height span limit search) :
    EndsWithin shortcut setting false limit jobs search := by
  -- Following a configuration comes down to jobs within a lower limit, and going along its edges
  -- to following others within the same limit.
  induction limit generalizing jobs search with
  | zero =>
      refine endsWithin_of_follow shaped coherent spans ?_ isOrderly areReady areEnough
      rintro visit search _ _ ⟨_, _, ⟨_, _, _, high⟩ | ⟨_, _, _, _, high⟩⟩
      · omega
      · omega
  | succ limit inductionHypothesis =>
      refine endsWithin_of_follow shaped coherent spans ?_ isOrderly areReady areEnough
      intro visit search isOrderly isReady enough
      obtain ⟨proceeds, leftAreReady⟩ := isReady.perform shortcut setting false isOrderly
      refine .follow (inductionHypothesis proceeds.isOrderly leftAreReady ?_)
      cases isKnown : search.isKnown visit with
      | true => simp [Job.perform_follow_of_known isKnown]
      | false =>
          have enoughBehind := EnoughFor.behind isOrderly enough isReady.2 isKnown spans
          have marked := isOrderly.proceeds_mark visit
          rw [Job.perform_follow_of_new isKnown, ← store_mark search visit]
          exact hasEnough_jobsAt spans marked.isOrderly enoughBehind (marked.grows.valid isReady.2)

end Ends

/-- The keys that a configuration can have with stacks of so many numbers. -/
def keysBelow
    (network : Network)
    (height : Nat)
    (configuration : Configuration) :
    List Configuration.Key :=
  (List.range network.states.size).flatMap fun state =>
    (List.range (height + 1)).flatMap fun stack =>
      [⟨state, configuration.alternative, stack, configuration.condition, false⟩,
        ⟨state, configuration.alternative, stack, configuration.condition, true⟩]

theorem keysRemain_keysBelow
    (network : Network)
    (height : Nat)
    (configuration : Configuration)
    (search : Search) :
    KeysRemain network height configuration search (keysBelow network height configuration) := by
  rintro ⟨state, _, stack, _, suppressed⟩ rfl rfl inBounds low _
  refine List.mem_flatMap.mpr ⟨state, List.mem_range.mpr inBounds, List.mem_flatMap.mpr
    ⟨stack, List.mem_range.mpr (Nat.lt_succ_of_le low), ?_⟩⟩
  cases suppressed <;> simp

theorem length_keysBelow
    (network : Network)
    (height : Nat)
    (configuration : Configuration) :
    (keysBelow network height configuration).length =
      network.states.size * (height + 1) * 2 := by
  simp [keysBelow, List.length_flatMap, Nat.mul_assoc]

/-- The limit of predictions is high enough for a configuration that begins to be followed. -/
theorem enoughFor_outset
    {origin : Configuration}
    (network : Network)
    (isOrderly : search.IsOrderly) :
    EnoughFor network origin.stack (walkSpan network origin.stack)
      (followLimit network origin.stack) (.outset false origin) search := by
  refine ⟨keysBelow network origin.stack origin,
    keysRemain_keysBelow network origin.stack origin search, .inr ⟨rfl, ?_, 0, ?_, ?_⟩⟩
  · exact ⟨origin.stack, [], le_rfl, .base⟩
  · intro returns holds
    exact ⟨⟨origin.state, returns⟩, isOrderly.wellMade.length_le holds, .stay⟩
  · rw [length_keysBelow, Nat.sub_zero]
    exact enough_followLimit_keys network origin.stack

end Prediction

end GrammarService
