import GrammarService.Proofs.Prediction.Exploration

namespace GrammarService

/-!
# What following free edges finds

Following free edges loses nothing that was found before. In full context it finds nothing but what
free steps lead to. In a network without loops it finds everything that free steps lead to and that
needs a token: the configurations that were followed are closed under free steps.
-/

namespace Prediction

/-- Places that no step without a token leads out of, also where the end of the input is free. -/
structure Closed
    (network : Network)
    (endIsFree : Bool)
    (within : Nat → Place → Prop) :
    Prop where
  free :
    ∀ {alternative : Nat} {first last : Place},
      within alternative first → network.FreeStep first last → within alternative last
  atEnd :
    ∀ {alternative number : Nat} {returns : List Nat} {edge : Edge},
      endIsFree = true →
        (network.state number).kind ≠ .ruleStop →
          edge ∈ (network.state number).edges →
            edge.consumes endOfInput 0 1 = true →
              within alternative ⟨number, returns⟩ →
                within alternative ⟨edge.target, returns⟩

/-- A search went on from a configuration: it kept what it had, and found what it may find. -/
structure Explores
    (network : Network)
    (endIsFree : Bool)
    (origin : Configuration)
    (search result : Search) :
    Prop where
  fits : result.found.Fits result.store
  grows : search.store.Grows result.store
  fullContext : result.found.fullContext = search.found.fullContext
  kept :
    ∀ {alternative state : Nat} {returns : List Nat},
      search.found.Reaches search.store alternative state returns →
        result.found.Reaches result.store alternative state returns
  visited :
    ∀ {key : Configuration.Key},
      search.visited.contains key = true → result.visited.contains key = true
  marks :
    ∀ {key : Configuration.Key},
      result.visited.contains key = true →
        search.visited.contains key = true ∨ key.alternative = origin.alternative
  only :
    search.found.fullContext = true →
      ∀ {within : Nat → Place → Prop},
        Closed network endIsFree within →
          (∀ {returns : List Nat},
            search.store.Holds false origin.stack returns →
              within origin.alternative ⟨origin.state, returns⟩) →
            ∀ {alternative state : Nat} {returns : List Nat},
              result.found.Reaches result.store alternative state returns →
                search.found.Reaches search.store alternative state returns ∨
                  within alternative ⟨state, returns⟩ ∧ network.Rests ⟨state, returns⟩

namespace Explores

variable
  {network : Network}
  {endIsFree : Bool}
  {origin : Configuration}
  {search between result : Search}

theorem refl
    (fits : search.found.Fits search.store) :
    Explores network endIsFree origin search search where
  fits := fits
  grows := .refl _
  fullContext := rfl
  kept := id
  visited := id
  marks := .inl
  only _ _ _ _ _ _ _ := .inl

theorem trans
    (earlier : Explores network endIsFree origin search between)
    (later : Explores network endIsFree origin between result)
    (wellMade : search.store.WellMade)
    (valid : origin.stack < search.store.nodes.size) :
    Explores network endIsFree origin search result where
  fits := later.fits
  grows := earlier.grows.trans later.grows
  fullContext := later.fullContext.trans earlier.fullContext
  kept reached := later.kept (earlier.kept reached)
  visited isVisited := later.visited (earlier.visited isVisited)
  marks isVisited := (later.marks isVisited).elim earlier.marks .inr
  only := by
    intro isFull within closed begins alternative state returns reached
    have beginsLater :
        ∀ {returns : List Nat},
          between.store.Holds false origin.stack returns →
            within origin.alternative ⟨origin.state, returns⟩ := by
      intro returns holds
      exact begins ((earlier.grows.holds_iff wellMade valid).mp holds)
    rcases later.only (earlier.fullContext.trans isFull) closed beginsLater reached with
      reached | isWithin
    · exact earlier.only isFull closed begins reached
    · exact .inr isWithin

/-- What a step leads to is explored from where the step begins. -/
theorem of_leads
    {next : Visit}
    (explores : Explores network endIsFree next.configuration search result)
    (leads :
      Leads network search.found.fullContext endIsFree search.store origin (.follow next)) :
    Explores network endIsFree origin search result where
  fits := explores.fits
  grows := explores.grows
  fullContext := explores.fullContext
  kept := explores.kept
  visited := explores.visited
  marks isVisited := (explores.marks isVisited).imp_right fun same =>
    same.trans leads.alternative_eq
  only := by
    intro isFull within closed begins
    refine explores.only isFull closed ?_
    intro returns holds
    cases leads with
    | unchecked alternative fits notChecked step =>
        obtain ⟨before, held, isStep⟩ := step holds
        rw [alternative]
        exact closed.free (begins held) isStep
    | outer isWild =>
        rw [isFull] at isWild
        cases isWild
    | atEnd isFree alternative fits inside present consumes stack state =>
        rw [alternative, state]
        exact closed.atEnd isFree inside present consumes (begins (stack ▸ holds))

end Explores

/-- Keeping the end of the outermost rule explores it. -/
theorem explores_keep
    {network : Network}
    {endIsFree : Bool}
    {origin : Configuration}
    {search : Search}
    (fits : search.found.Fits search.store)
    (fitting : origin.Fits search.store search.found.fullContext)
    (stopped : (network.state origin.state).kind = .ruleStop)
    (holds : search.store.Holds false origin.stack []) :
    Explores network endIsFree origin search
      (search.add { origin with stack := StackId.empty }) := by
  have keptFits :
      Configuration.Fits search.store search.found.fullContext
        { origin with stack := StackId.empty } :=
    ⟨fits.wellMade.empty_valid, fun _ => .empty, fitting.unguarded⟩
  have gains := fits.gains_add keptFits
  exact {
    fits := gains.fits
    grows := gains.grows
    fullContext := gains.fullContext
    kept := gains.kept
    visited := id
    marks := .inl
    only := by
      intro isFull within closed begins alternative state returns reached
      rcases gains.only isFull reached with reached | ⟨rfl, rfl, standing⟩
      · exact .inl reached
      · rw [isFull, fits.wellMade.holds_empty_iff] at standing
        have isNil : returns = [] := by
          simpa using standing
        subst isNil
        exact .inr ⟨begins holds, (Network.Rests.iff_of_stopped stopped).mpr rfl⟩ }

/-- Performing tasks that a configuration leads to explores it. -/
theorem explores_perform
    {setting : Setting}
    {endIsFree : Bool}
    {limit : Nat}
    {origin : Configuration}
    (follows :
      ∀ {visit : Visit} {search : Search},
        search.found.Fits search.store →
          visit.configuration.Fits search.store search.found.fullContext →
            Explores setting.network endIsFree visit.configuration search
              (follow setting endIsFree limit visit search))
    (tasks : List Task)
    {search : Search}
    (fits : search.found.Fits search.store)
    (fitting : origin.Fits search.store search.found.fullContext)
    (leads :
      ∀ task ∈ tasks,
        Leads setting.network search.found.fullContext endIsFree search.store origin task) :
    Explores setting.network endIsFree origin search
      (tasks.foldl (Task.perform setting endIsFree limit) search) := by
  induction tasks generalizing search with
  | nil => exact .refl fits
  | cons task tasks inductionHypothesis =>
      have first :
          Explores setting.network endIsFree origin search
            (Task.perform setting endIsFree limit search task) := by
        have leadsFirst := leads task List.mem_cons_self
        cases task with
        | keep configuration =>
            cases leadsFirst with
            | keep isFull stopped holds => exact explores_keep fits fitting stopped holds
        | follow next =>
            have nextFits :
                next.configuration.Fits search.store search.found.fullContext := by
              cases leadsFirst with
              | unchecked _ fits => exact fits
              | outer _ _ _ fits => exact fits
              | atEnd _ _ fits => exact fits
            exact (follows fits nextFits).of_leads leadsFirst
      refine first.trans (inductionHypothesis first.fits ?_ ?_) fits.wellMade fitting.valid
      · rw [first.fullContext]
        exact fitting.grows fits.wellMade first.grows
      · intro other member
        rw [first.fullContext]
        exact (leads other (List.mem_cons_of_mem task member)).grows fits.wellMade first.grows
          fitting.valid

/-- Performing tasks finds what one of them finds whenever it is performed. -/
theorem reaches_perform
    {setting : Setting}
    {endIsFree : Bool}
    {limit alternative : Nat}
    {search : Search}
    (explores :
      ∀ {visit : Visit} {search : Search},
        search.found.Fits search.store →
          visit.configuration.Fits search.store search.found.fullContext →
            Explores setting.network endIsFree visit.configuration search
              (follow setting endIsFree limit visit search))
    {origin : Configuration}
    {state : Nat}
    {returns : List Nat}
    {tasks : List Task}
    {task : Task}
    (member : task ∈ tasks)
    (fits : search.found.Fits search.store)
    (fitting : origin.Fits search.store search.found.fullContext)
    (leads :
      ∀ task ∈ tasks,
        Leads setting.network search.found.fullContext endIsFree search.store origin task)
    (finds :
      ∀ {between : Search},
        between.found.Fits between.store →
          search.store.Grows between.store →
            between.found.fullContext = search.found.fullContext →
              (Task.perform setting endIsFree limit between task).found.Reaches
                (Task.perform setting endIsFree limit between task).store alternative state
                returns) :
    (tasks.foldl (Task.perform setting endIsFree limit) search).found.Reaches
      (tasks.foldl (Task.perform setting endIsFree limit) search).store alternative state
      returns := by
  obtain ⟨before, after, rfl⟩ := List.append_of_mem member
  rw [List.foldl_append, List.foldl_cons]
  have explored :=
    explores_perform explores before fits fitting fun other isBefore =>
      leads other (List.mem_append_left _ isBefore)
  generalize before.foldl (Task.perform setting endIsFree limit) search = between at explored
  have laterLeads :
      ∀ other ∈ task :: after,
        Leads setting.network between.found.fullContext endIsFree between.store origin other := by
    intro other isLater
    rw [explored.fullContext]
    exact (leads other (List.mem_append_right _ isLater)).grows fits.wellMade explored.grows
      fitting.valid
  have laterFitting : origin.Fits between.store between.found.fullContext := by
    rw [explored.fullContext]
    exact fitting.grows fits.wellMade explored.grows
  have performed :=
    explores_perform explores [task] explored.fits laterFitting fun other isTask =>
      laterLeads other (by simp_all)
  simp only [List.foldl_cons, List.foldl_nil] at performed
  have rest :=
    explores_perform explores after performed.fits (by
        rw [performed.fullContext]
        exact laterFitting.grows explored.fits.wellMade performed.grows) (by
        intro other isAfter
        rw [performed.fullContext]
        exact (laterLeads other (List.mem_cons_of_mem task isAfter)).grows
          explored.fits.wellMade performed.grows laterFitting.valid)
  exact rest.kept (finds explored.fits explored.grows explored.fullContext)

/-- Performing tasks finds the end of the outermost rule where one of them keeps it. -/
theorem reaches_perform_keep
    {setting : Setting}
    {endIsFree : Bool}
    {limit : Nat}
    {search : Search}
    (explores :
      ∀ {visit : Visit} {search : Search},
        search.found.Fits search.store →
          visit.configuration.Fits search.store search.found.fullContext →
            Explores setting.network endIsFree visit.configuration search
              (follow setting endIsFree limit visit search))
    {origin : Configuration}
    {tasks : List Task}
    (member : .keep { origin with stack := StackId.empty } ∈ tasks)
    (fits : search.found.Fits search.store)
    (fitting : origin.Fits search.store search.found.fullContext)
    (leads :
      ∀ task ∈ tasks,
        Leads setting.network search.found.fullContext endIsFree search.store origin task) :
    (tasks.foldl (Task.perform setting endIsFree limit) search).found.Reaches
      (tasks.foldl (Task.perform setting endIsFree limit) search).store origin.alternative
      origin.state [] := by
  refine reaches_perform explores member fits fitting leads ?_
  intro between betweenFits _ _
  have kept :
      Configuration.Fits between.store between.found.fullContext
        { origin with stack := StackId.empty } :=
    ⟨betweenFits.wellMade.empty_valid, fun _ => .empty, fitting.unguarded⟩
  exact (betweenFits.gains_add kept).gained ⟨rfl, rfl, .empty (.inr rfl)⟩

/-- Marking a visit as followed finds nothing. -/
theorem explores_mark
    {network : Network}
    {endIsFree : Bool}
    {visit : Visit}
    {search : Search}
    (fits : search.found.Fits search.store) :
    Explores network endIsFree visit.configuration search (search.mark visit) := by
  unfold Search.mark
  split
  · exact {
      fits := fits
      grows := .refl _
      fullContext := rfl
      kept := id
      visited := fun isVisited => by simp [isVisited]
      marks := by
        intro key isVisited
        rw [Std.HashSet.contains_insert, Bool.or_eq_true] at isVisited
        rcases isVisited with same | isVisited
        · exact .inr (congrArg Configuration.Key.alternative (eq_of_beq same).symm)
        · exact .inl isVisited
      only := fun _ _ _ _ _ _ _ => .inl }
  · exact .refl fits

/-- What is kept before the tasks of a visit is where the visit is. -/
theorem Leaves.explores
    {setting : Setting}
    {endIsFree : Bool}
    {visit : Visit}
    {search : Search}
    {result : List Task × Search}
    (shaped : setting.network.RuleShaped)
    (coherent : setting.network.Coherent)
    (leaves : Leaves setting endIsFree visit search result) :
    Explores setting.network endIsFree visit.configuration search result.2 where
  fits := leaves.gains.fits
  grows := leaves.gains.grows
  fullContext := leaves.gains.fullContext
  kept := leaves.gains.kept
  visited isVisited := leaves.visited ▸ isVisited
  marks isVisited := .inl (leaves.visited ▸ isVisited)
  only := by
    intro isFull within _ begins alternative state returns reached
    rcases leaves.gains.only isFull reached with reached | ⟨keeps, rfl, rfl, standing⟩
    · exact .inl reached
    · rw [isFull] at standing
      obtain ⟨inside, notFree⟩ :
          (setting.network.state visit.configuration.state).kind ≠ .ruleStop ∧
            (setting.network.state visit.configuration.state).epsilonOnly = false := by
        simpa [keepsFirst, goesAlongEdges, isFull] using keeps
      exact .inr
        ⟨begins standing, (Network.Rests.iff_of_inside shaped coherent inside).mpr notFree⟩

section Follow

variable
  {setting : Setting}
  {endIsFree : Bool}
  (shaped : setting.network.RuleShaped)
  (coherent : setting.network.Coherent)
  (plain : setting.network.Plain)

include shaped coherent plain

/-- Following free edges explores the configuration that is followed. -/
theorem explores_follow
    (limit : Nat)
    {visit : Visit}
    {search : Search}
    (fits : search.found.Fits search.store)
    (fitting : visit.configuration.Fits search.store search.found.fullContext) :
    Explores setting.network endIsFree visit.configuration search
      (follow setting endIsFree limit visit search) := by
  induction limit generalizing visit search with
  | zero => exact .refl fits
  | succ limit inductionHypothesis =>
      rw [follow_succ fitting]
      split
      · exact .refl fits
      · have marked :
            Explores setting.network endIsFree visit.configuration search (search.mark visit) :=
          explores_mark fits
        have markedFitting := fitting.grows fits.wellMade marked.grows
        rw [← marked.fullContext] at markedFitting
        have leaves :=
          @leaves_tasksOf setting endIsFree visit _ shaped coherent plain marked.fits
            markedFitting
        have begun := marked.trans (leaves.explores shaped coherent) fits.wellMade fitting.valid
        refine begun.trans ?_ fits.wellMade fitting.valid
        refine explores_perform inductionHypothesis _ begun.fits ?_ ?_
        · rw [begun.fullContext]
          exact fitting.grows fits.wellMade begun.grows
        · intro task member
          rw [(leaves.explores shaped coherent).fullContext]
          exact leaves.leads task member

end Follow

/--
Free steps from the places of a configuration lead to places of entered configurations, and the
places that rest are found.
-/
structure Settles
    (network : Network)
    (alternative : Nat)
    (entered : Nat → StackId → Prop)
    (search : Search)
    (state : Nat)
    (stack : StackId) :
    Prop where
  steps :
    ∀ {firstRule next : Nat} {before returns : List Nat},
      (search.found.fullContext = false → network.Nested firstRule state before) →
        search.store.Holds (!search.found.fullContext) stack before →
          network.FreeStep ⟨state, before⟩ ⟨next, returns⟩ →
            ∃ below,
              entered next below ∧
                search.store.Holds (!search.found.fullContext) below returns
  resting :
    ∀ {before : List Nat},
      search.store.Holds (!search.found.fullContext) stack before →
        network.Rests ⟨state, before⟩ →
          (search.found.fullContext = false → network.Counts state) →
            search.found.Reaches search.store alternative state before

/-- All entered configurations of an alternative are settled, but for those in progress. -/
structure Closing
    (network : Network)
    (alternative : Nat)
    (pending entered : Nat → StackId → Prop)
    (search : Search) :
    Prop where
  valid :
    ∀ {state : Nat} {stack : StackId},
      entered state stack → stack < search.store.nodes.size
  settled :
    ∀ {state : Nat} {stack : StackId},
      entered state stack →
        ¬ pending state stack → Settles network alternative entered search state stack
  visited :
    ∀ {key : Configuration.Key},
      search.visited.contains key = true →
        key.alternative = alternative → entered key.state key.stack

/-- The checked configurations that were not followed yet are among the remaining ones. -/
def Remains
    (network : Network)
    (alternative : Nat)
    (search : Search)
    (remaining : List Configuration.Key) :
    Prop :=
  ∀ key : Configuration.Key,
    key.alternative = alternative →
      key.state < network.states.size →
        key.stack = StackId.empty →
          key.condition = .always →
            search.visited.contains key = false → key ∈ remaining

/-- A walk of so many free steps leads to each place that a configuration stands for exactly. -/
def Walked
    (network : Network)
    (height steps : Nat)
    (store : StackStore)
    (configuration : Configuration) :
    Prop :=
  ∀ {returns : List Nat},
    store.Holds false configuration.stack returns →
      ∃ first : Place,
        first.returns.length ≤ height ∧
          network.FreeWalk steps first ⟨configuration.state, returns⟩

/-- No walk without a token, from a place with so many returns, has as many steps as `span`. -/
def Spans
    (network : Network)
    (height span : Nat) :
    Prop :=
  ∀ {steps : Nat} {first last : Place},
    first.returns.length ≤ height → network.FreeWalk steps first last → steps < span

/-- The limit is enough for following the tasks of a configuration. -/
def SufficesBehind
    (network : Network)
    (height span : Nat)
    (origin : Configuration)
    (search : Search)
    (limit : Nat) :
    Prop :=
  ∃ remaining steps,
    Remains network origin.alternative search remaining ∧
      Walked network height steps search.store origin ∧
        remaining.length * (span + 1) + (span - steps) ≤ limit

/-- The limit is enough for following a visit. -/
def Suffices
    (network : Network)
    (height span : Nat)
    (visit : Visit)
    (search : Search)
    (limit : Nat) :
    Prop :=
  ∃ remaining,
    Remains network visit.configuration.alternative search remaining ∧
      ((visit.checked = true ∧ visit.configuration.stack = StackId.empty ∧
          visit.configuration.state < network.states.size ∧
          remaining.length * (span + 1) + 1 ≤ limit) ∨
        (visit.checked = false ∧
          ∃ steps,
            Walked network height steps search.store visit.configuration ∧
              remaining.length * (span + 1) + (span - steps) + 1 ≤ limit))

section Covering

variable
  {network : Network}
  {alternative height span limit : Nat}
  {entered pending : Nat → StackId → Prop}
  {origin : Configuration}
  {search result : Search}
  {endIsFree : Bool}

theorem Settles.explored
    {entered' : Nat → StackId → Prop}
    {state : Nat}
    {stack : StackId}
    (settles : Settles network alternative entered search state stack)
    (fits : search.found.Fits search.store)
    (explores : Explores network endIsFree origin search result)
    (valid : stack < search.store.nodes.size)
    (validEntered :
      ∀ {state : Nat} {stack : StackId},
        entered state stack → stack < search.store.nodes.size)
    (more : ∀ {state : Nat} {stack : StackId}, entered state stack → entered' state stack) :
    Settles network alternative entered' result state stack where
  steps := by
    intro firstRule next before returns nested holds step
    rw [explores.fullContext] at nested holds
    rw [explores.grows.holds_iff fits.wellMade valid] at holds
    obtain ⟨below, isEntered, held⟩ := settles.steps nested holds step
    refine ⟨below, more isEntered, ?_⟩
    rw [explores.fullContext, explores.grows.holds_iff fits.wellMade (validEntered isEntered)]
    exact held
  resting := by
    intro before holds rests counts
    rw [explores.fullContext] at holds counts
    rw [explores.grows.holds_iff fits.wellMade valid] at holds
    exact explores.kept (settles.resting holds rests counts)

/-- Exploring without following a checked configuration keeps what is closed. -/
theorem Closing.explored
    (closing : Closing network alternative pending entered search)
    (fits : search.found.Fits search.store)
    (explores : Explores network endIsFree origin search result)
    (sameVisited :
      ∀ {key : Configuration.Key},
        result.visited.contains key = true →
          key.alternative = alternative → search.visited.contains key = true) :
    Closing network alternative pending entered result where
  valid isEntered := explores.grows.valid (closing.valid isEntered)
  settled isEntered notPending :=
    (closing.settled isEntered notPending).explored fits explores (closing.valid isEntered)
      closing.valid id
  visited isVisited isAlternative :=
    closing.visited (sameVisited isVisited isAlternative) isAlternative

theorem Remains.explored
    {remaining : List Configuration.Key}
    (remains : Remains network alternative search remaining)
    (explores : Explores network endIsFree origin search result) :
    Remains network alternative result remaining := by
  intro key isAlternative inBounds isEmpty unguarded notVisited
  refine remains key isAlternative inBounds isEmpty unguarded ?_
  by_contra isVisited
  rw [explores.visited (by simpa using isVisited)] at notVisited
  cases notVisited

theorem Walked.grows
    {steps : Nat}
    {store after : StackStore}
    (walked : Walked network height steps store origin)
    (wellMade : store.WellMade)
    (valid : origin.stack < store.nodes.size)
    (grows : store.Grows after) :
    Walked network height steps after origin := by
  intro returns holds
  exact walked ((grows.holds_iff wellMade valid).mp holds)

/-- A walk to where a configuration is is shorter than the longest one. -/
theorem Walked.lt_span
    {steps : Nat}
    {store : StackStore}
    (walked : Walked network height steps store origin)
    (spans : Spans network height span)
    (wellMade : store.WellMade)
    (valid : origin.stack < store.nodes.size) :
    steps < span := by
  obtain ⟨returns, holds⟩ := wellMade.exists_holds origin.stack valid
  obtain ⟨first, low, walk⟩ := walked holds
  exact spans low walk

/-- A walk to where a configuration is goes on to what is a free step behind. -/
theorem Walked.step
    {steps : Nat}
    {store : StackStore}
    {behind : Configuration}
    (walked : Walked network height steps store origin)
    (step :
      ∀ {returns : List Nat},
        store.Holds false behind.stack returns →
          ∃ before,
            store.Holds false origin.stack before ∧
              network.FreeStep ⟨origin.state, before⟩ ⟨behind.state, returns⟩) :
    Walked network height (steps + 1) store behind := by
  intro returns holds
  obtain ⟨before, held, isStep⟩ := step holds
  obtain ⟨first, low, walk⟩ := walked held
  exact ⟨first, low, walk.snoc isStep⟩

/-- Marking a visit that was not followed yet leaves one key fewer. -/
theorem mem_erase_of_mark
    {visit : Visit}
    {remaining : List Configuration.Key}
    {among : Configuration.Key → Prop}
    (remains :
      ∀ key : Configuration.Key,
        among key → search.visited.contains key = false → key ∈ remaining)
    (isChecked : visit.checked = true)
    {key : Configuration.Key}
    (isAmong : among key)
    (notVisited : (search.mark visit).visited.contains key = false) :
    key ∈ remaining.erase visit.configuration.key := by
  have isMark :
      search.mark visit =
        { search with visited := search.visited.insert visit.configuration.key } := by
    simp [Search.mark, isChecked]
  rw [isMark, Std.HashSet.contains_insert, Bool.or_eq_false_iff] at notVisited
  have different : key ≠ visit.configuration.key := by
    rintro rfl
    simp at notVisited
  exact (List.mem_erase_of_ne different).mpr (remains key isAmong notVisited.2)

/-- With one key fewer there is room for one more walk. -/
theorem length_mul_erase
    {key : Configuration.Key}
    {remaining : List Configuration.Key}
    (isRemaining : key ∈ remaining)
    (span : Nat) :
    remaining.length * (span + 1) = (remaining.erase key).length * (span + 1) + (span + 1) := by
  have positive := List.length_pos_of_mem isRemaining
  rw [List.length_erase_of_mem isRemaining, ← Nat.succ_mul]
  congr 1
  omega

/-- What is enough for the tasks of a configuration is enough for each of them. -/
theorem SufficesBehind.suffices
    {next : Visit}
    (spans : Spans network height span)
    (fits : search.found.Fits search.store)
    (valid : origin.stack < search.store.nodes.size)
    (suffices_ : SufficesBehind network height span origin search limit)
    (leads : Leads network search.found.fullContext false search.store origin (.follow next)) :
    Suffices network height span next search limit := by
  obtain ⟨remaining, steps, remains, walked, enough⟩ := suffices_
  have short := walked.lt_span spans fits.wellMade valid
  cases leads with
  | unchecked sameAlternative _ notChecked step =>
      exact ⟨remaining, sameAlternative ▸ remains,
        .inr ⟨notChecked, steps + 1, walked.step step, by omega⟩⟩
  | outer _ _ sameAlternative _ isChecked isEmpty present =>
      exact ⟨remaining, sameAlternative ▸ remains, .inl ⟨isChecked, isEmpty, present, by omega⟩⟩
  | atEnd isFree => cases isFree

theorem SufficesBehind.explored
    (suffices_ : SufficesBehind network height span origin search limit)
    (fits : search.found.Fits search.store)
    (valid : origin.stack < search.store.nodes.size)
    {other : Configuration}
    (explores : Explores network endIsFree other search result) :
    SufficesBehind network height span origin result limit := by
  obtain ⟨remaining, steps, remains, walked, enough⟩ := suffices_
  exact ⟨remaining, steps, remains.explored explores,
    walked.grows fits.wellMade valid explores.grows, enough⟩

/-- What is enough for a visit that is followed is enough for its tasks. -/
theorem Suffices.behind
    {visit : Visit}
    (spans : Spans network height span)
    (fits : search.found.Fits search.store)
    (fitting : visit.configuration.Fits search.store search.found.fullContext)
    (suffices_ : Suffices network height span visit search (limit + 1))
    (new : search.isKnown visit = false) :
    SufficesBehind network height span visit.configuration (search.mark visit) limit := by
  obtain ⟨remaining, remains, byCheck⟩ := suffices_
  rcases byCheck with
    ⟨isChecked, isEmpty, inBounds, enough⟩ | ⟨notChecked, steps, walked, enough⟩
  · have notVisited : search.visited.contains visit.configuration.key = false := by
      simpa [Search.isKnown, isChecked] using new
    have isRemaining : visit.configuration.key ∈ remaining :=
      remains visit.configuration.key rfl inBounds isEmpty fitting.unguarded notVisited
    have isProduct := length_mul_erase isRemaining span
    refine ⟨remaining.erase visit.configuration.key, 0, ?_, ?_, by omega⟩
    · intro key isAlternative keyInBounds keyIsEmpty unguarded keyNotVisited
      let among (key : Configuration.Key) : Prop :=
        key.alternative = visit.configuration.alternative ∧
          key.state < network.states.size ∧ key.stack = StackId.empty ∧ key.condition = .always
      have isAmong : among key := ⟨isAlternative, keyInBounds, keyIsEmpty, unguarded⟩
      refine mem_erase_of_mark ?_ isChecked isAmong keyNotVisited
      rintro other ⟨sameAlternative, inBounds, isEmpty, unguarded⟩ notVisited
      exact remains other sameAlternative inBounds isEmpty unguarded notVisited
    · intro returns holds
      have sameStore : (search.mark visit).store = search.store := by
        unfold Search.mark
        split <;> rfl
      rw [sameStore, isEmpty, fits.wellMade.holds_empty_iff] at holds
      have isNil : returns = [] := by
        simpa using holds
      exact ⟨⟨visit.configuration.state, returns⟩, by simp [isNil], .stay⟩
  · have short := walked.lt_span spans fits.wellMade fitting.valid
    have isMark : search.mark visit = search := by
      simp [Search.mark, notChecked]
    rw [isMark]
    exact ⟨remaining, steps, remains, walked, by omega⟩

/-- A visit that is marked is entered, and in progress. -/
theorem Closing.mark
    {visit : Visit}
    (closing : Closing network alternative pending entered search)
    (fits : search.found.Fits search.store)
    (fitting : visit.configuration.Fits search.store search.found.fullContext) :
    Closing network alternative
      (fun state stack =>
        pending state stack ∨
          state = visit.configuration.state ∧ stack = visit.configuration.stack)
      (fun state stack =>
        entered state stack ∨
          state = visit.configuration.state ∧ stack = visit.configuration.stack)
      (search.mark visit) := by
  have marked : Explores network false visit.configuration search (search.mark visit) :=
    explores_mark fits
  refine {
    valid := ?_
    settled := ?_
    visited := ?_ }
  · rintro state stack (isEntered | ⟨rfl, rfl⟩)
    · exact marked.grows.valid (closing.valid isEntered)
    · exact marked.grows.valid fitting.valid
  · rintro state stack (isEntered | isVisit) notPending
    · have notPending' : ¬ pending state stack := fun isPending => notPending (.inl isPending)
      exact (closing.settled isEntered notPending').explored fits marked
        (closing.valid isEntered) closing.valid .inl
    · exact absurd (.inr isVisit) notPending
  · intro key isVisited isAlternative
    by_cases isVisit : key = visit.configuration.key
    · subst isVisit
      exact .inr ⟨rfl, rfl⟩
    · refine .inl (closing.visited ?_ isAlternative)
      unfold Search.mark at isVisited
      split at isVisited
      · rw [Std.HashSet.contains_insert, Bool.or_eq_true] at isVisited
        rcases isVisited with same | isVisited
        · exact absurd (eq_of_beq same).symm isVisit
        · exact isVisited
      · exact isVisited

/-- Performing tasks enters what they are about. -/
theorem closing_perform
    {setting : Setting}
    (spans : Spans setting.network height span)
    (explores :
      ∀ {visit : Visit} {search : Search},
        search.found.Fits search.store →
          visit.configuration.Fits search.store search.found.fullContext →
            Explores setting.network false visit.configuration search
              (follow setting false limit visit search))
    (closes :
      ∀ {visit : Visit} {search : Search} {entered : Nat → StackId → Prop},
        search.found.Fits search.store →
          visit.configuration.Fits search.store search.found.fullContext →
            visit.configuration.alternative = alternative →
              Suffices setting.network height span visit search limit →
                Closing setting.network alternative pending entered search →
                  ∃ entered' : Nat → StackId → Prop,
                    (∀ {state : Nat} {stack : StackId},
                      entered state stack → entered' state stack) ∧
                      entered' visit.configuration.state visit.configuration.stack ∧
                        Closing setting.network alternative pending entered'
                          (follow setting false limit visit search))
    (tasks : List Task)
    {search : Search}
    {entered : Nat → StackId → Prop}
    (fits : search.found.Fits search.store)
    (fitting : origin.Fits search.store search.found.fullContext)
    (sameAlternative : origin.alternative = alternative)
    (enough : SufficesBehind setting.network height span origin search limit)
    (leads :
      ∀ task ∈ tasks,
        Leads setting.network search.found.fullContext false search.store origin task)
    (closing : Closing setting.network alternative pending entered search) :
    ∃ entered' : Nat → StackId → Prop,
      (∀ {state : Nat} {stack : StackId}, entered state stack → entered' state stack) ∧
        (∀ {next : Visit},
          .follow next ∈ tasks →
            entered' next.configuration.state next.configuration.stack) ∧
          Closing setting.network alternative pending entered'
            (tasks.foldl (Task.perform setting false limit) search) := by
  induction tasks generalizing search entered with
  | nil => exact ⟨entered, id, by simp, closing⟩
  | cons task tasks inductionHypothesis =>
      have leadsFirst := leads task List.mem_cons_self
      have first :
          Explores setting.network false origin search
              (Task.perform setting false limit search task) ∧
            ∃ entered' : Nat → StackId → Prop,
              (∀ {state : Nat} {stack : StackId}, entered state stack → entered' state stack) ∧
                (∀ {next : Visit},
                  .follow next = task →
                    entered' next.configuration.state next.configuration.stack) ∧
                  Closing setting.network alternative pending entered'
                    (Task.perform setting false limit search task) := by
        cases task with
        | keep configuration =>
            cases leadsFirst with
            | keep isFull stopped holds =>
                have kept :
                    Explores setting.network false origin search
                      (search.add { origin with stack := StackId.empty }) :=
                  explores_keep fits fitting stopped holds
                exact ⟨kept, entered, id, by simp, closing.explored fits kept fun isVisited _ => isVisited⟩
        | follow next =>
            have ⟨nextFits, nextAlternative⟩ :
                next.configuration.Fits search.store search.found.fullContext ∧
                  next.configuration.alternative = origin.alternative := by
              cases leadsFirst with
              | unchecked same fits => exact ⟨fits, same⟩
              | outer _ _ same fits => exact ⟨fits, same⟩
              | atEnd isFree => cases isFree
            have enoughFirst := enough.suffices spans fits fitting.valid leadsFirst
            obtain ⟨entered', more, isEntered, closing'⟩ :=
              closes fits nextFits (nextAlternative.trans sameAlternative) enoughFirst closing
            refine ⟨(explores fits nextFits).of_leads leadsFirst, entered', more, ?_, closing'⟩
            rintro other same
            cases same
            exact isEntered
      obtain ⟨explored, entered', more, isEntered, closing'⟩ := first
      have laterFitting :
          origin.Fits (Task.perform setting false limit search task).store
            (Task.perform setting false limit search task).found.fullContext := by
        rw [explored.fullContext]
        exact fitting.grows fits.wellMade explored.grows
      obtain ⟨entered'', more', isEntered', closing''⟩ :=
        inductionHypothesis explored.fits laterFitting
          (enough.explored fits fitting.valid explored) (by
            intro other member
            rw [explored.fullContext]
            exact (leads other (List.mem_cons_of_mem task member)).grows fits.wellMade
              explored.grows fitting.valid) closing'
      refine ⟨entered'', more' ∘ more, ?_, closing''⟩
      intro next member
      rcases List.mem_cons.mp member with isFirst | isRest
      · exact more' (isEntered isFirst)
      · exact isEntered' isRest

/-- A configuration whose tasks were performed is settled. -/
theorem Leaves.settles
    {setting : Setting}
    {visit : Visit}
    {tasks : List Task}
    {between : Search}
    (shaped : setting.network.RuleShaped)
    (coherent : setting.network.Coherent)
    (leaves : Leaves setting endIsFree visit search (tasks, between))
    (fits : search.found.Fits search.store)
    (fitting : visit.configuration.Fits search.store search.found.fullContext)
    (explores : Explores setting.network endIsFree visit.configuration between result)
    (fitTasks :
      ∀ next, .follow next ∈ tasks → next.configuration.stack < between.store.nodes.size)
    (isEntered :
      ∀ {next : Visit},
        .follow next ∈ tasks → entered next.configuration.state next.configuration.stack)
    (keeps :
      .keep { visit.configuration with stack := StackId.empty } ∈ tasks →
        result.found.Reaches result.store visit.configuration.alternative
          visit.configuration.state []) :
    Settles setting.network visit.configuration.alternative entered result
      visit.configuration.state visit.configuration.stack := by
  have grows := leaves.gains.grows.trans explores.grows
  have mode : result.found.fullContext = search.found.fullContext :=
    explores.fullContext.trans leaves.gains.fullContext
  refine {
    steps := ?_
    resting := ?_ }
  · intro firstRule next before returns nested holds step
    rw [mode] at nested holds
    rw [grows.holds_iff fits.wellMade fitting.valid] at holds
    obtain ⟨visit', member, _, isState, held⟩ := leaves.complete nested holds step
    refine ⟨visit'.configuration.stack, isState ▸ isEntered member, ?_⟩
    rw [mode, explores.grows.holds_iff leaves.gains.fits.wellMade (fitTasks visit' member)]
    exact held
  · intro before holds rests counts
    rw [mode] at holds counts
    rw [grows.holds_iff fits.wellMade fitting.valid] at holds
    by_cases stopped :
      (setting.network.state visit.configuration.state).kind = .ruleStop
    · obtain rfl := (Network.Rests.iff_of_stopped stopped).mp rests
      cases isFull : search.found.fullContext with
      | true =>
          rw [isFull] at holds
          exact keeps (leaves.ended isFull stopped holds)
      | false =>
          -- Nothing is called from where the rule ends, so the configuration itself is kept.
          have noEdges := counts isFull stopped
          have isEmpty := (fitting.bottomless isFull).eq_empty_of_holds_nil holds
          refine explores.kept (leaves.gains.gained ⟨?_, rfl, rfl, holds⟩)
          simp [keepsFirst, goesAlongEdges, isEmpty, isFull, coherent.epsilonOnly, noEdges]
    · have notFree := (Network.Rests.iff_of_inside shaped coherent stopped).mp rests
      refine explores.kept (leaves.gains.gained ⟨?_, rfl, rfl, holds⟩)
      simp [keepsFirst, goesAlongEdges, stopped, notFree]

/--
Following free edges closes what is entered: the configuration that is followed is entered, and all
entered configurations but those in progress are settled.
-/
theorem closing_follow
    {setting : Setting}
    (shaped : setting.network.RuleShaped)
    (coherent : setting.network.Coherent)
    (plain : setting.network.Plain)
    (spans : Spans setting.network height span)
    (limit : Nat)
    {visit : Visit}
    {search : Search}
    {pending entered : Nat → StackId → Prop}
    (fits : search.found.Fits search.store)
    (fitting : visit.configuration.Fits search.store search.found.fullContext)
    (sameAlternative : visit.configuration.alternative = alternative)
    (enough : Suffices setting.network height span visit search limit)
    (closing : Closing setting.network alternative pending entered search) :
    ∃ entered' : Nat → StackId → Prop,
      (∀ {state : Nat} {stack : StackId}, entered state stack → entered' state stack) ∧
        entered' visit.configuration.state visit.configuration.stack ∧
          Closing setting.network alternative pending entered'
            (follow setting false limit visit search) := by
  -- While the tasks are performed the configuration itself is entered, and in progress.
  induction limit generalizing visit search pending entered with
  | zero =>
      obtain ⟨_, _, ⟨_, _, _, enough⟩ | ⟨_, _, _, enough⟩⟩ := enough
      · omega
      · omega
  | succ limit inductionHypothesis =>
      rw [follow_succ fitting]
      by_cases isKnown : search.isKnown visit = true
      · rw [if_pos isKnown]
        simp only [Search.isKnown, Bool.and_eq_true] at isKnown
        exact ⟨entered, id, closing.visited isKnown.2 sameAlternative, closing⟩
      · rw [if_neg isKnown]
        let inProgress (state : Nat) (stack : StackId) : Prop :=
          state = visit.configuration.state ∧ stack = visit.configuration.stack
        have marked :
            Explores setting.network false visit.configuration search (search.mark visit) :=
          explores_mark fits
        have markedFitting := fitting.grows fits.wellMade marked.grows
        rw [← marked.fullContext] at markedFitting
        have leaves :=
          @leaves_tasksOf setting false visit _ shaped coherent plain marked.fits markedFitting
        have explored := leaves.explores shaped coherent
        have begun := marked.trans explored fits.wellMade fitting.valid
        have begunFitting := fitting.grows fits.wellMade begun.grows
        rw [← begun.fullContext] at begunFitting
        have closingMarked :
            Closing setting.network alternative
              (fun state stack => pending state stack ∨ inProgress state stack)
              (fun state stack => entered state stack ∨ inProgress state stack)
              (search.mark visit) :=
          closing.mark fits fitting
        have closingBegun := closingMarked.explored marked.fits explored fun isVisited _ => leaves.visited ▸ isVisited
        have enoughBehind :=
          (enough.behind spans fits fitting (by simpa using isKnown)).explored marked.fits
            markedFitting.valid explored
        obtain ⟨entered', more, isEntered, closing'⟩ :=
          closing_perform spans
            (fun fits fitting =>
              explores_follow shaped coherent plain limit fits fitting)
            (fun fits fitting same enough closing =>
              inductionHypothesis fits fitting same enough closing)
            _ begun.fits begunFitting sameAlternative enoughBehind (by
              intro task member
              rw [explored.fullContext]
              exact leaves.leads task member) closingBegun
        have performed :
            Explores setting.network false visit.configuration
              (tasksOf setting false visit (search.mark visit)).2
              ((tasksOf setting false visit (search.mark visit)).1.foldl
                (Task.perform setting false limit)
                (tasksOf setting false visit (search.mark visit)).2) := by
          refine explores_perform
            (fun fits fitting => explores_follow shaped coherent plain limit fits fitting)
            _ begun.fits begunFitting ?_
          intro task member
          rw [explored.fullContext]
          exact leaves.leads task member
        have settles :=
          leaves.settles shaped coherent marked.fits markedFitting performed (by
            intro next member
            cases leaves.leads _ member with
            | unchecked _ fits => exact fits.valid
            | outer _ _ _ fits => exact fits.valid
            | atEnd isFree => cases isFree) isEntered (by
            intro member
            refine reaches_perform_keep
              (fun fits fitting => explores_follow shaped coherent plain limit fits fitting)
              member explored.fits ?_ ?_
            · rw [explored.fullContext]
              exact markedFitting.grows marked.fits.wellMade explored.grows
            · intro task isTask
              rw [explored.fullContext]
              exact leaves.leads task isTask)
        refine ⟨entered', fun isOld => more (.inl isOld), more (.inr ⟨rfl, rfl⟩), ?_⟩
        exact {
          valid := closing'.valid
          settled := by
            intro state stack isIn notPending
            by_cases isVisit : inProgress state stack
            · obtain ⟨rfl, rfl⟩ := isVisit
              exact sameAlternative ▸ settles
            · exact closing'.settled isIn fun either => either.elim notPending isVisit
          visited := closing'.visited }

end Covering

end Prediction

end GrammarService
