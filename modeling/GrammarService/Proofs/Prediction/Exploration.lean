import GrammarService.Proofs.Network.FreeWalks
import GrammarService.Proofs.Prediction.Reaching

namespace GrammarService

/-!
# The steps of following free edges

Following free edges from a configuration leaves some tasks: to keep a configuration, or to follow
another one. Each task is a free step away, or a return to wherever the rule is called from; and
whichever free step leads from a place that the configuration stands for, a task stands for the
place behind it.
-/

namespace Prediction

/-- What is left to do for a configuration that is being followed. -/
inductive Task
  | keep (configuration : Configuration)
  | follow (visit : Visit)

namespace Task

/-- The configuration that a task is about. -/
def configuration : Task → Configuration
  | keep configuration => configuration
  | follow visit => visit.configuration

/-- Do what is left to do, for ways of at most `limit` steps. -/
def perform
    (setting : Setting)
    (endIsFree : Bool)
    (limit : Nat)
    (search : Search) :
    Task → Search
  | keep configuration => search.add configuration
  | follow visit => Prediction.follow setting endIsFree limit visit search

end Task

/-- The task that an entry of a configuration's stack leaves at the end of a rule. -/
def returnTask
    (visit : Visit)
    (entry : StackEntry) :
    Task :=
  match entry.returnState with
  | some returnState =>
      .follow
        { configuration :=
            { visit.configuration with
              state := returnState
              stack := entry.below
              filterSuppressed := false }
          collects := visit.collects
          depth := visit.depth - 1
          checked := false }
  | none => .keep { visit.configuration with stack := StackId.empty }

/-- Whether a visit goes on along the edges of its state. -/
def goesAlongEdges
    (network : Network)
    (fullContext : Bool)
    (configuration : Configuration) :
    Bool :=
  !decide ((network.state configuration.state).kind = .ruleStop) ||
    (configuration.stack = StackId.empty && !fullContext)

/-- At the end of a rule edges are followed from the empty stack only. -/
theorem stack_eq_empty_of_goesAlongEdges
    {network : Network}
    {fullContext : Bool}
    {configuration : Configuration}
    (along : goesAlongEdges network fullContext configuration = true)
    (stopped : (network.state configuration.state).kind = .ruleStop) :
    configuration.stack = StackId.empty := by
  simp only [goesAlongEdges, stopped, decide_true, Bool.not_true, Bool.false_or, Bool.and_eq_true,
    decide_eq_true_eq] at along
  exact along.1

/-- Edges are followed everywhere but at the end of a rule. -/
theorem stopped_of_not_goesAlongEdges
    {network : Network}
    {fullContext : Bool}
    {configuration : Configuration}
    (notAlong : ¬ goesAlongEdges network fullContext configuration = true) :
    (network.state configuration.state).kind = .ruleStop := by
  simp only [goesAlongEdges, Bool.or_eq_true, Bool.not_eq_true', decide_eq_false_iff_not, not_or,
    not_not] at notAlong
  exact notAlong.1

/-- The tasks that a visit leaves, and the search before they are performed. -/
def tasksOf
    (setting : Setting)
    (endIsFree : Bool)
    (visit : Visit)
    (search : Search) :
    List Task × Search :=
  if goesAlongEdges setting.network search.found.fullContext visit.configuration then
    let (visits, search) := expand setting endIsFree visit search
    (visits.map .follow, search)
  else if visit.configuration.stack = StackId.empty then
    ([.keep visit.configuration], search)
  else
    ((search.store.entries visit.configuration.stack).map (returnTask visit), search)

/-- The search in which a checked visit counts as followed. -/
def Search.mark
    (search : Search)
    (visit : Visit) :
    Search :=
  if visit.checked then
    { search with visited := search.visited.insert visit.configuration.key }
  else
    search

/-- Whether a visit is given up because its configuration was followed before. -/
def Search.isKnown
    (search : Search)
    (visit : Visit) :
    Bool :=
  visit.checked && search.visited.contains visit.configuration.key

/-- Following a visit is to perform the tasks that it leaves. -/
theorem follow_succ
    {setting : Setting}
    {endIsFree : Bool}
    {limit : Nat}
    {visit : Visit}
    {search : Search}
    (fits : visit.configuration.Fits search.store search.found.fullContext) :
    follow setting endIsFree (limit + 1) visit search =
      if search.isKnown visit then
        search
      else
        let tasks := tasksOf setting endIsFree visit (search.mark visit)
        tasks.1.foldl (Task.perform setting endIsFree limit) tasks.2 := by
  rw [follow]
  by_cases isKnown : search.isKnown visit = true
  · rw [if_pos isKnown, if_pos (by simpa [Search.isKnown] using isKnown)]
  · rw [if_neg isKnown, if_neg (by simpa [Search.isKnown] using isKnown)]
    change
      (if goesAlongEdges setting.network (search.mark visit).found.fullContext
          visit.configuration = true then _ else _) = _
    have sameMode : (search.mark visit).found = search.found := by
      unfold Search.mark
      split <;> rfl
    have sameStore : (search.mark visit).store = search.store := by
      unfold Search.mark
      split <;> rfl
    unfold tasksOf
    split
    · simp only [List.foldl_map]
      rfl
    · split
      · rfl
      · rename_i _ isStack
        simp only [List.foldl_map]
        refine List.foldl_ext _ _ _ ?_
        intro after entry member
        change entry ∈ (search.mark visit).store.entries _ at member
        rw [sameStore] at member
        obtain ⟨returnState, below⟩ := entry
        cases returnState with
        | some returnState => rfl
        | none =>
            have isFull : (search.mark visit).found.fullContext = true := by
              rw [sameMode]
              by_contra isWild
              have bottomless := fits.bottomless (by simpa using isWild)
              exact isStack (bottomless.eq_empty member)
            exact if_pos isFull

/-- What following does with conditions behind an edge. -/
def collectsBehind
    (visit : Visit)
    (edge : Edge) :
    Bool :=
  let isAction :=
    match edge with
    | .action .. => true
    | _ => false
  visit.collects && !isAction

section Edges

variable
  {setting : Setting}
  {fullContext endIsFree : Bool}
  {visit : Visit}
  {state : Network.State}
  {edges : List Edge}
  {store : StackStore}

/-- Behind a call the stack has one more state to return to. -/
theorem visitsBehind_call
    (target rule follow : Nat)
    (precedence : Int) :
    (visitsBehind setting fullContext endIsFree visit state
        (.call target rule precedence follow :: edges)).run store =
      let pushed := (StackStore.push visit.configuration.stack follow).run store
      let rest :=
        (visitsBehind setting fullContext endIsFree visit state edges).run pushed.2
      (visitBehind setting visit state (.call target rule precedence follow)
          (collectsBehind visit (.call target rule precedence follow))
          { visit.configuration with state := target, stack := pushed.1 } :: rest.1,
        rest.2) :=
  rfl

/-- Behind another edge the stack is the same. -/
theorem visitsBehind_other
    {edge : Edge}
    (notCall : edge.isCall = false) :
    (visitsBehind setting fullContext endIsFree visit state (edge :: edges)).run store =
      let rest := (visitsBehind setting fullContext endIsFree visit state edges).run store
      (((passEdge? setting fullContext endIsFree (collectsBehind visit edge) (visit.depth == 0)
            visit.configuration edge).map
          (visitBehind setting visit state edge (collectsBehind visit edge))).toList ++ rest.1,
        rest.2) := by
  cases isBehind :
    passEdge? setting fullContext endIsFree (collectsBehind visit edge) (visit.depth == 0)
      visit.configuration edge with
  | none =>
      cases edge with
      | call => cases notCall
      | _ =>
          simp only [collectsBehind, Bool.not_true, Bool.not_false, Bool.and_true,
            Bool.and_false] at isBehind
          simp [visitsBehind, isBehind]
  | some behind =>
      cases edge with
      | call => cases notCall
      | _ =>
          simp only [collectsBehind, Bool.not_true, Bool.not_false, Bool.and_true,
            Bool.and_false] at isBehind
          simp [visitsBehind, isBehind, collectsBehind]
          rfl

/-- A free edge without a condition is passed. -/
theorem passEdge?_of_isFree
    {collects inContext : Bool}
    {configuration : Configuration}
    {edge : Edge}
    (isFree : edge.isFree = true)
    (unguarded : edge.isGuarded = false) :
    passEdge? setting fullContext endIsFree collects inContext configuration edge =
      some { configuration with state := edge.target } := by
  cases edge with
  | epsilon => rfl
  | action => rfl
  | predicate => cases unguarded
  | precedence => cases unguarded
  | _ => cases isFree

/-- Passing a condition changes the state and the condition only. -/
theorem eq_of_passCondition?
    {configuration behind : Configuration}
    {target : Nat}
    {condition : Condition}
    (isBehind :
      passCondition? setting fullContext configuration target condition = some behind) :
    behind = { configuration with state := target, condition := behind.condition } := by
  unfold passCondition? at isBehind
  split at isBehind
  · split at isBehind
    · cases isBehind
      rfl
    · cases isBehind
  · cases isBehind
    rfl

/-- Passing an edge changes the state and the condition only. -/
theorem eq_of_passEdge?
    {collects inContext : Bool}
    {configuration behind : Configuration}
    {edge : Edge}
    (isBehind :
      passEdge? setting fullContext endIsFree collects inContext configuration edge =
        some behind) :
    behind = { configuration with state := edge.target, condition := behind.condition } := by
  cases edge with
  | epsilon | action =>
      cases isBehind
      rfl
  | atom | range | set =>
      simp only [passEdge?, Option.ite_none_right_eq_some, Option.some.injEq] at isBehind
      obtain ⟨-, rfl⟩ := isBehind
      rfl
  | precedence | predicate =>
      dsimp only [passEdge?] at isBehind
      split at isBehind
      · exact eq_of_passCondition? isBehind
      · cases isBehind
        rfl
  | _ => cases isBehind

/-- Only free edges are passed, and those of the end of the input where it is free. -/
theorem of_passEdge?_eq_some
    {collects inContext : Bool}
    {configuration behind : Configuration}
    {edge : Edge}
    (isBehind :
      passEdge? setting fullContext endIsFree collects inContext configuration edge =
        some behind)
    (unguarded : edge.isGuarded = false) :
    behind = { configuration with state := edge.target } ∧
      (edge.isFree = true ∨
        endIsFree = true ∧ edge.isEpsilon = false ∧ edge.consumes endOfInput 0 1 = true) := by
  cases edge with
  | epsilon =>
      cases isBehind
      exact ⟨rfl, .inl rfl⟩
  | action =>
      cases isBehind
      exact ⟨rfl, .inl rfl⟩
  | predicate => cases unguarded
  | precedence => cases unguarded
  | call => cases isBehind
  | notSet => cases isBehind
  | wildcard => cases isBehind
  | _ =>
      simp only [passEdge?, Option.ite_none_right_eq_some, Bool.and_eq_true,
        Option.some.injEq] at isBehind
      obtain ⟨⟨endIsFree, consumes⟩, rfl⟩ := isBehind
      exact ⟨rfl, .inr ⟨endIsFree, rfl, consumes⟩⟩

end Edges

/-- A task comes from a configuration by a step that needs no token, or keeps its place. -/
inductive Leads
    (network : Network)
    (fullContext endIsFree : Bool)
    (store : StackStore)
    (origin : Configuration) :
    Task → Prop where
  | unchecked
      {next : Visit}
      (alternative : next.configuration.alternative = origin.alternative)
      (fits : next.configuration.Fits store fullContext)
      (notChecked : next.checked = false)
      (step :
        ∀ {returns : List Nat},
          store.Holds false next.configuration.stack returns →
            ∃ before,
              store.Holds false origin.stack before ∧
                network.FreeStep ⟨origin.state, before⟩ ⟨next.configuration.state, returns⟩) :
      Leads network fullContext endIsFree store origin (.follow next)
  | outer
      {next : Visit}
      (isWild : fullContext = false)
      (stopped : (network.state origin.state).kind = .ruleStop)
      (alternative : next.configuration.alternative = origin.alternative)
      (fits : next.configuration.Fits store fullContext)
      (isChecked : next.checked = true)
      (isEmpty : next.configuration.stack = StackId.empty)
      (present : next.configuration.state < network.states.size) :
      Leads network fullContext endIsFree store origin (.follow next)
  | atEnd
      {next : Visit}
      {edge : Edge}
      (isFree : endIsFree = true)
      (alternative : next.configuration.alternative = origin.alternative)
      (fits : next.configuration.Fits store fullContext)
      (inside : (network.state origin.state).kind ≠ .ruleStop)
      (present : edge ∈ (network.state origin.state).edges)
      (consumes : edge.consumes endOfInput 0 1 = true)
      (stack : next.configuration.stack = origin.stack)
      (state : next.configuration.state = edge.target) :
      Leads network fullContext endIsFree store origin (.follow next)
  | keep
      (isFull : fullContext = true)
      (stopped : (network.state origin.state).kind = .ruleStop)
      (holds : store.Holds false origin.stack []) :
      Leads network fullContext endIsFree store origin
        (.keep { origin with stack := StackId.empty })

/-- A task is about the same alternative. -/
theorem Leads.alternative_eq
    {network : Network}
    {fullContext endIsFree : Bool}
    {store : StackStore}
    {origin : Configuration}
    {task : Task}
    (leads : Leads network fullContext endIsFree store origin task) :
    task.configuration.alternative = origin.alternative := by
  cases leads with
  | unchecked same => exact same
  | outer _ _ same => exact same
  | atEnd _ same => exact same
  | keep => rfl

/-- Where a task comes from does not change when the store grows. -/
theorem Leads.grows
    {network : Network}
    {fullContext endIsFree : Bool}
    {store after : StackStore}
    {origin : Configuration}
    {task : Task}
    (leads : Leads network fullContext endIsFree store origin task)
    (wellMade : store.WellMade)
    (grows : store.Grows after)
    (valid : origin.stack < store.nodes.size) :
    Leads network fullContext endIsFree after origin task := by
  cases leads with
  | unchecked alternative fits notChecked step =>
      refine .unchecked alternative (fits.grows wellMade grows) notChecked ?_
      intro returns holds
      obtain ⟨before, wasHeld, isStep⟩ := step ((grows.holds_iff wellMade fits.valid).mp holds)
      exact ⟨before, (grows.holds_iff wellMade valid).mpr wasHeld, isStep⟩
  | outer isWild stopped alternative fits isChecked isEmpty present =>
      exact .outer isWild stopped alternative (fits.grows wellMade grows) isChecked isEmpty present
  | atEnd isFree alternative fits inside present consumes stack state =>
      exact .atEnd isFree alternative (fits.grows wellMade grows) inside present consumes stack
        state
  | keep isFull stopped holds =>
      exact .keep isFull stopped ((grows.holds_iff wellMade valid).mpr holds)

/-- The edges of a configuration have been opened: each one that needs no token leaves a visit. -/
structure Opens
    (network : Network)
    (fullContext endIsFree : Bool)
    (store : StackStore)
    (origin : Configuration)
    (edges : List Edge)
    (result : List Visit × StackStore) :
    Prop where
  wellMade : result.2.WellMade
  grows : store.Grows result.2
  leads :
    ∀ next ∈ result.1, Leads network fullContext endIsFree result.2 origin (.follow next)
  free :
    ∀ edge ∈ edges,
      edge.isFree = true →
        ∃ next ∈ result.1,
          next.configuration.alternative = origin.alternative ∧
            next.configuration.state = edge.target ∧
              next.configuration.stack = origin.stack
  call :
    ∀ {target rule follow : Nat} {precedence : Int},
      Edge.call target rule precedence follow ∈ edges →
        ∃ next ∈ result.1,
          next.configuration.alternative = origin.alternative ∧
            next.configuration.state = target ∧
              next.configuration.stack < result.2.nodes.size ∧
                result.2.spelledEntries next.configuration.stack =
                  [⟨some follow, origin.stack⟩]

section Tasks

variable
  {setting : Setting}
  {fullContext endIsFree : Bool}
  {visit : Visit}
  {store : StackStore}

/-- An edge that is not a call is opened by the visits that it leaves itself. -/
theorem Opens.cons_other
    {network : Network}
    {origin : Configuration}
    {edge : Edge}
    {edges : List Edge}
    {rest : List Visit × StackStore}
    (opens : Opens network fullContext endIsFree store origin edges rest)
    (notCall : edge.isCall = false)
    {visits : List Visit}
    (leads : ∀ next ∈ visits, Leads network fullContext endIsFree rest.2 origin (.follow next))
    (free :
      edge.isFree = true →
        ∃ next ∈ visits,
          next.configuration.alternative = origin.alternative ∧
            next.configuration.state = edge.target ∧
              next.configuration.stack = origin.stack) :
    Opens network fullContext endIsFree store origin (edge :: edges) (visits ++ rest.1, rest.2) where
  wellMade := opens.wellMade
  grows := opens.grows
  leads := by
    intro next member
    rcases List.mem_append.mp member with isFirst | isRest
    · exact leads next isFirst
    · exact opens.leads next isRest
  free := by
    intro other member isFree
    rcases List.mem_cons.mp member with rfl | isRest
    · obtain ⟨next, isNext, same⟩ := free isFree
      exact ⟨next, List.mem_append_left _ isNext, same⟩
    · obtain ⟨next, isNext, same⟩ := opens.free other isRest isFree
      exact ⟨next, List.mem_append_right _ isNext, same⟩
  call := by
    intro target rule follow precedence member
    rcases List.mem_cons.mp member with rfl | isRest
    · cases notCall
    · obtain ⟨next, isNext, same⟩ := opens.call isRest
      exact ⟨next, List.mem_append_right _ isNext, same⟩

/-- A stack with a single way to return stands for that and what is below. -/
theorem holds_of_spelledEntries
    {emptyIsAny : Bool}
    {stack below : StackId}
    {follow : Nat}
    {returns : List Nat}
    (wellMade : store.WellMade)
    (spelled : store.spelledEntries stack = [⟨some follow, below⟩]) :
    store.Holds emptyIsAny stack returns ↔
      ∃ outer, returns = follow :: outer ∧ store.Holds emptyIsAny below outer := by
  rw [wellMade.holds_iff, spelled]
  simp [StackStore.EntriesHold, StackStore.EntryHolds]

/-- A call is opened by a visit with one more state to return to. -/
theorem Opens.cons_call
    {network : Network}
    {origin : Configuration}
    {target rule follow : Nat}
    {precedence : Int}
    {edges : List Edge}
    {pushed : StackId × StackStore}
    {rest : List Visit × StackStore}
    {visit : Visit}
    (wellMade : store.WellMade)
    (fits : origin.Fits store fullContext)
    (inside : (network.state origin.state).kind ≠ .ruleStop)
    (present :
      Edge.call target rule precedence follow ∈ (network.state origin.state).edges)
    (interns : store.Interns [⟨some follow, origin.stack⟩] pushed)
    (opens : Opens network fullContext endIsFree pushed.2 origin edges rest)
    (isVisit : visit.configuration = { origin with state := target, stack := pushed.1 })
    (notChecked : visit.checked = false) :
    Opens network fullContext endIsFree store origin
      (.call target rule precedence follow :: edges) (visit :: rest.1, rest.2) := by
  have grows := interns.grows.trans opens.grows
  have spelled : rest.2.spelledEntries pushed.1 = [⟨some follow, origin.stack⟩] :=
    (opens.grows.spelledEntries interns.valid).trans interns.spelled
  have valid := opens.grows.valid interns.valid
  refine {
    wellMade := opens.wellMade
    grows := grows
    leads := ?_
    free := ?_
    call := ?_ }
  · intro next member
    rcases List.mem_cons.mp member with rfl | isRest
    · refine .unchecked (by rw [isVisit]) ?_ notChecked ?_
      · rw [isVisit]
        refine ⟨valid, ?_, fits.unguarded⟩
        intro isWild
        refine (opens.grows.bottomless_iff interns.wellMade interns.valid).mpr ?_
        refine interns.bottomless (by simp) ?_
        simpa using (fits.grows wellMade interns.grows).bottomless isWild
      · intro returns holds
        rw [isVisit] at holds ⊢
        obtain ⟨outer, rfl, below⟩ := (holds_of_spelledEntries opens.wellMade spelled).mp holds
        exact ⟨outer, below, .call inside present⟩
    · exact opens.leads next isRest
  · intro edge member isFree
    rcases List.mem_cons.mp member with rfl | isRest
    · cases isFree
    · obtain ⟨next, isNext, same⟩ := opens.free edge isRest isFree
      exact ⟨next, List.mem_cons_of_mem visit isNext, same⟩
  · intro target' rule' follow' precedence' member
    rcases List.mem_cons.mp member with same | isRest
    · cases same
      refine ⟨visit, List.mem_cons_self, ?_⟩
      rw [isVisit]
      exact ⟨rfl, rfl, valid, spelled⟩
    · obtain ⟨next, isNext, same⟩ := opens.call isRest
      exact ⟨next, List.mem_cons_of_mem visit isNext, same⟩

/-- Inside a rule the edges of a configuration are opened. -/
theorem opens_visitsBehind
    (plain : setting.network.Plain)
    (inside : (setting.network.state visit.configuration.state).kind ≠ .ruleStop)
    (edges : List Edge)
    (present :
      ∀ edge ∈ edges, edge ∈ (setting.network.state visit.configuration.state).edges)
    (wellMade : store.WellMade)
    (fits : visit.configuration.Fits store fullContext) :
    Opens setting.network fullContext endIsFree store visit.configuration edges
      ((visitsBehind setting fullContext endIsFree visit
        (setting.network.state visit.configuration.state) edges).run store) := by
  induction edges generalizing store with
  | nil =>
      have isRun :
          (visitsBehind setting fullContext endIsFree visit
            (setting.network.state visit.configuration.state) []).run store = ([], store) :=
        rfl
      rw [isRun]
      exact ⟨wellMade, .refl store, by simp, by simp, by simp⟩
  | cons edge edges inductionHypothesis =>
      have edgePresent := present edge List.mem_cons_self
      have restPresent := fun other member => present other (List.mem_cons_of_mem edge member)
      have unguarded := plain.unguarded edgePresent
      by_cases notCall : edge.isCall = false
      · rw [visitsBehind_other notCall]
        have rest := inductionHypothesis restPresent wellMade fits
        refine rest.cons_other notCall ?_ ?_
        · intro next member
          obtain ⟨behind, isBehind, rfl⟩ := by
            simpa only [Option.mem_toList, Option.map_eq_some_iff] using member
          obtain ⟨rfl, passes⟩ := of_passEdge?_eq_some isBehind unguarded
          have moved := fits.grows wellMade rest.grows
          simp only [visitBehind, if_neg inside]
          rcases passes with isFree | ⟨endFree, _, consumes⟩
          · refine .unchecked rfl ⟨moved.valid, moved.bottomless, moved.unguarded⟩ ?_ ?_
            · simp [Edge.isEpsilon_of_isFree isFree]
            · intro returns holds
              exact ⟨returns, holds, .edge inside edgePresent isFree⟩
          · exact .atEnd endFree rfl ⟨moved.valid, moved.bottomless, moved.unguarded⟩ inside
              edgePresent consumes rfl rfl
        · intro isFree
          rw [passEdge?_of_isFree isFree unguarded]
          refine ⟨_, List.mem_singleton_self _, ?_⟩
          simp [visitBehind, inside]
      · cases edge with
        | call target rule precedence follow =>
            rw [visitsBehind_call]
            have interns := StackStore.interns_push wellMade fits.valid follow
            have rest :=
              inductionHypothesis restPresent interns.wellMade
                (fits.grows wellMade interns.grows)
            exact .cons_call wellMade fits inside edgePresent interns rest
              (by simp [visitBehind, inside]) (by simp [visitBehind, inside, Edge.isEpsilon])
        | _ => exact absurd rfl notCall

/-- At the end of a rule every edge leads out of it. -/
theorem visitsBehind_stopped
    {state : Network.State}
    (stopped : state.kind = .ruleStop)
    (edges : List Edge)
    (returns : ∀ edge ∈ edges, ∃ follow outermost, edge = .epsilon follow outermost) :
    ((visitsBehind setting fullContext endIsFree visit state edges).run store).2 = store ∧
      (∀ next ∈ ((visitsBehind setting fullContext endIsFree visit state edges).run store).1,
        ∃ edge ∈ edges,
          next.checked = true ∧
            next.configuration.alternative = visit.configuration.alternative ∧
              next.configuration.state = edge.target ∧
                next.configuration.stack = visit.configuration.stack ∧
                  next.configuration.condition = visit.configuration.condition) ∧
        ∀ edge ∈ edges,
          ∃ next ∈
              ((visitsBehind setting fullContext endIsFree visit state edges).run store).1,
            next.configuration.alternative = visit.configuration.alternative ∧
              next.configuration.state = edge.target ∧
                next.configuration.stack = visit.configuration.stack := by
  induction edges with
  | nil =>
      have isRun :
          (visitsBehind setting fullContext endIsFree visit state []).run store = ([], store) :=
        rfl
      simp [isRun]
  | cons edge edges inductionHypothesis =>
      obtain ⟨sameStore, leads, complete⟩ :=
        inductionHypothesis fun other member => returns other (List.mem_cons_of_mem edge member)
      obtain ⟨follow, outermost, rfl⟩ := returns edge List.mem_cons_self
      rw [visitsBehind_other rfl, passEdge?_of_isFree rfl rfl]
      refine ⟨sameStore, ?_, ?_⟩
      · intro next member
        rcases List.mem_cons.mp member with rfl | isRest
        · exact ⟨_, List.mem_cons_self, by simp [visitBehind, stopped]⟩
        · obtain ⟨other, isOther, same⟩ := leads next isRest
          exact ⟨other, List.mem_cons_of_mem _ isOther, same⟩
      · intro other member
        rcases List.mem_cons.mp member with rfl | isRest
        · exact ⟨_, List.mem_cons_self, by simp [visitBehind, stopped]⟩
        · obtain ⟨next, isNext, same⟩ := complete other isRest
          exact ⟨next, List.mem_cons_of_mem _ isNext, same⟩

/-- Whether a visit keeps its configuration before its tasks are performed. -/
def keepsFirst
    (network : Network)
    (fullContext : Bool)
    (configuration : Configuration) :
    Bool :=
  goesAlongEdges network fullContext configuration &&
    !(network.state configuration.state).epsilonOnly

/--
The tasks that a visit leaves are those that lead from its configuration. For every free step from
a place that the configuration stands for, one of them stands for the place behind it.
-/
structure Leaves
    (setting : Setting)
    (endIsFree : Bool)
    (visit : Visit)
    (search : Search)
    (result : List Task × Search) :
    Prop where
  gains :
    search.found.Gains search.store
      (fun alternative state returns =>
        keepsFirst setting.network search.found.fullContext visit.configuration = true ∧
          ConfigurationSet.Standing search.store search.found.fullContext visit.configuration
            alternative state returns)
      (result.2.found, result.2.store)
  visited : result.2.visited = search.visited
  leads :
    ∀ task ∈ result.1,
      Leads setting.network search.found.fullContext endIsFree result.2.store
        visit.configuration task
  complete :
    ∀ {firstRule : Nat} {before returns : List Nat} {state : Nat},
      (search.found.fullContext = false →
          setting.network.Nested firstRule visit.configuration.state before) →
        search.store.Holds (!search.found.fullContext) visit.configuration.stack before →
          setting.network.FreeStep ⟨visit.configuration.state, before⟩ ⟨state, returns⟩ →
            ∃ next,
              .follow next ∈ result.1 ∧
                next.configuration.alternative = visit.configuration.alternative ∧
                  next.configuration.state = state ∧
                    result.2.store.Holds (!search.found.fullContext) next.configuration.stack
                      returns
  ended :
    search.found.fullContext = true →
      (setting.network.state visit.configuration.state).kind = .ruleStop →
        search.store.Holds false visit.configuration.stack [] →
          .keep { visit.configuration with stack := StackId.empty } ∈ result.1

section Shaped

variable
  {search : Search}
  (shaped : setting.network.RuleShaped)
  (coherent : setting.network.Coherent)
  (plain : setting.network.Plain)
  (fits : search.found.Fits search.store)
  (fitting : visit.configuration.Fits search.store search.found.fullContext)

/-- The search once a configuration has been kept where its state needs a token. -/
def keptFirst
    (network : Network)
    (visit : Visit)
    (search : Search) :
    Search :=
  if (network.state visit.configuration.state).epsilonOnly then
    search
  else
    search.add visit.configuration

include coherent plain in
/-- Without precedence loops a configuration is expanded along all edges of its state. -/
theorem expand_eq :
    expand setting endIsFree visit search =
      let kept := keptFirst setting.network visit search
      let opened :=
        (visitsBehind setting kept.found.fullContext endIsFree visit
          (setting.network.state visit.configuration.state)
          (setting.network.state visit.configuration.state).edges).run kept.store
      (opened.1, { kept with store := opened.2 }) := by
  have notRedundant : ∀ store, roundIsRedundant setting.network store visit.configuration = false := by
    intro store
    simp [roundIsRedundant, plain.precedenceDecision_eq coherent]
  simp only [expand, notRedundant, Bool.false_eq_true, ↓reduceIte]
  rfl

include fits fitting in
theorem gains_keptFirst :
    search.found.Gains search.store
      (fun alternative state returns =>
        (!(setting.network.state visit.configuration.state).epsilonOnly) = true ∧
          ConfigurationSet.Standing search.store search.found.fullContext visit.configuration
            alternative state returns)
      ((keptFirst setting.network visit search).found,
        (keptFirst setting.network visit search).store) := by
  unfold keptFirst
  split
  · rename_i isFree
    exact (ConfigurationSet.Gains.refl fits).congr (by simp [isFree])
  · rename_i needsToken
    exact (fits.gains_add fitting).congr (by simp [needsToken])

theorem visited_keptFirst :
    (keptFirst setting.network visit search).visited = search.visited := by
  unfold keptFirst
  split <;> rfl

include coherent plain fits fitting in
/-- Inside a rule the edges of the state leave the tasks. -/
theorem leaves_of_inside
    (inside : (setting.network.state visit.configuration.state).kind ≠ .ruleStop) :
    Leaves setting endIsFree visit search (tasksOf setting endIsFree visit search) := by
  have along :
      goesAlongEdges setting.network search.found.fullContext visit.configuration = true := by
    simp [goesAlongEdges, inside]
  have isResult :
      tasksOf setting endIsFree visit search =
        ((expand setting endIsFree visit search).1.map .follow,
          (expand setting endIsFree visit search).2) := by
    simp [tasksOf, along]
  rw [isResult, expand_eq coherent plain]
  dsimp only
  have gains := @gains_keptFirst setting visit search fits fitting
  have visited := @visited_keptFirst setting visit search
  generalize keptFirst setting.network visit search = kept at gains visited
  have keptFits := fitting.grows fits.wellMade gains.grows
  rw [← gains.fullContext] at keptFits
  have opens :=
    @opens_visitsBehind setting kept.found.fullContext endIsFree visit kept.store plain inside
      (setting.network.state visit.configuration.state).edges (fun _ member => member)
      gains.fits.wellMade keptFits
  generalize
    (visitsBehind setting kept.found.fullContext endIsFree visit
      (setting.network.state visit.configuration.state)
      (setting.network.state visit.configuration.state).edges).run kept.store =
      opened at opens
  have grows := gains.grows.trans opens.grows
  refine {
    gains := ?_
    visited := visited
    leads := ?_
    complete := ?_
    ended := ?_ }
  · refine (gains.inLater opens.wellMade opens.grows).congr ?_
    simp [keepsFirst, along]
  · intro task member
    obtain ⟨next, isNext, rfl⟩ := List.mem_map.mp member
    rw [← gains.fullContext]
    exact opens.leads next isNext
  · intro firstRule before returns state nested holds step
    have heldLater := (grows.holds_iff fits.wellMade fitting.valid).mpr holds
    cases step with
    | edge _ present isFree =>
        obtain ⟨next, isNext, sameAlternative, sameState, sameStack⟩ :=
          opens.free _ present isFree
        refine ⟨next, List.mem_map_of_mem isNext, sameAlternative, sameState, ?_⟩
        rw [sameStack]
        exact heldLater
    | call _ present =>
        obtain ⟨next, isNext, sameAlternative, sameState, _, spelled⟩ := opens.call present
        refine ⟨next, List.mem_map_of_mem isNext, sameAlternative, sameState, ?_⟩
        exact (holds_of_spelledEntries opens.wellMade spelled).mpr ⟨before, rfl, heldLater⟩
    | leave stopped => exact absurd stopped inside
  · intro _ stopped
    exact absurd stopped inside

include shaped coherent plain fits fitting in
/-- At the end of a rule with nothing to return to, every return of the rule leaves a task. -/
theorem leaves_of_outermost
    (stopped : (setting.network.state visit.configuration.state).kind = .ruleStop)
    (isEmpty : visit.configuration.stack = StackId.empty)
    (isWild : search.found.fullContext = false) :
    Leaves setting endIsFree visit search (tasksOf setting endIsFree visit search) := by
  have along :
      goesAlongEdges setting.network search.found.fullContext visit.configuration = true := by
    simp [goesAlongEdges, isEmpty, isWild]
  have isResult :
      tasksOf setting endIsFree visit search =
        ((expand setting endIsFree visit search).1.map .follow,
          (expand setting endIsFree visit search).2) := by
    simp [tasksOf, along]
  rw [isResult, expand_eq coherent plain]
  dsimp only
  have gains := @gains_keptFirst setting visit search fits fitting
  have visited := @visited_keptFirst setting visit search
  generalize keptFirst setting.network visit search = kept at gains visited
  have keptFits := fitting.grows fits.wellMade gains.grows
  obtain ⟨sameStore, leads, complete⟩ :=
    @visitsBehind_stopped setting kept.found.fullContext endIsFree visit kept.store _ stopped
      (setting.network.state visit.configuration.state).edges (by
        intro edge present
        obtain ⟨_, _, _, _, follow, outermost, _, _, isEpsilon⟩ :=
          shaped.stopEdges stopped present
        exact ⟨follow, outermost, isEpsilon⟩)
  generalize
    (visitsBehind setting kept.found.fullContext endIsFree visit
      (setting.network.state visit.configuration.state)
      (setting.network.state visit.configuration.state).edges).run kept.store =
      opened at sameStore leads complete
  refine {
    gains := ?_
    visited := visited
    leads := ?_
    complete := ?_
    ended := ?_ }
  · rw [sameStore]
    refine gains.congr ?_
    simp [keepsFirst, along]
  · intro task member
    obtain ⟨next, isNext, rfl⟩ := List.mem_map.mp member
    obtain ⟨edge, present, isChecked, sameAlternative, isTarget, sameStack, sameCondition⟩ :=
      leads next isNext
    refine .outer isWild stopped sameAlternative ?_ isChecked (sameStack.trans isEmpty) ?_
    · rw [sameStore]
      refine ⟨sameStack ▸ keptFits.valid, ?_, sameCondition.trans fitting.unguarded⟩
      intro wild
      rw [sameStack]
      exact keptFits.bottomless wild
    · rw [isTarget]
      exact (coherent.target present).lt_size
  · intro firstRule before returns state nested _ step
    cases step with
    | edge inside => exact absurd stopped inside
    | call inside => exact absurd stopped inside
    | leave _ =>
        obtain ⟨edge, present, _, isTarget⟩ :=
          (nested isWild).exists_return shaped coherent stopped
        obtain ⟨next, isNext, sameAlternative, sameState, sameStack⟩ := complete edge present
        refine ⟨next, List.mem_map_of_mem isNext, sameAlternative, sameState.trans isTarget, ?_⟩
        rw [sameStack, isEmpty, isWild]
        exact .empty (.inl rfl)
  · intro isFull
    rw [isWild] at isFull
    cases isFull

include fits in
/-- At the end of the outermost rule in full context the configuration is kept. -/
theorem leaves_of_ended
    (stopped : (setting.network.state visit.configuration.state).kind = .ruleStop)
    (isEmpty : visit.configuration.stack = StackId.empty)
    (isFull : search.found.fullContext = true) :
    Leaves setting endIsFree visit search (tasksOf setting endIsFree visit search) := by
  have notAlong :
      goesAlongEdges setting.network search.found.fullContext visit.configuration = false := by
    simp [goesAlongEdges, stopped, isFull]
  have isResult :
      tasksOf setting endIsFree visit search = ([.keep visit.configuration], search) := by
    simp [tasksOf, notAlong, isEmpty]
  have same : visit.configuration = { visit.configuration with stack := StackId.empty } := by
    rw [← isEmpty]
  have holdsNothing : search.store.Holds false visit.configuration.stack [] := by
    rw [isEmpty]
    exact .empty (.inr rfl)
  rw [isResult]
  refine {
    gains := (ConfigurationSet.Gains.refl fits).congr (by simp [keepsFirst, notAlong])
    visited := rfl
    leads := ?_
    complete := ?_
    ended := fun _ _ _ => by rw [← same]; exact List.mem_singleton_self _ }
  · intro task member
    have kept :
        Leads setting.network search.found.fullContext endIsFree search.store
          visit.configuration (.keep { visit.configuration with stack := StackId.empty }) :=
      .keep isFull stopped holdsNothing
    rw [← same] at kept
    rw [List.mem_singleton.mp member]
    exact kept
  · intro firstRule before returns state _ holds step
    cases step with
    | edge inside => exact absurd stopped inside
    | call inside => exact absurd stopped inside
    | leave _ =>
        rw [isEmpty, isFull, fits.wellMade.holds_empty_iff] at holds
        simp at holds

include fits fitting in
/-- At the end of a rule with something to return to, every way to return leaves a task. -/
theorem leaves_of_returning
    (stopped : (setting.network.state visit.configuration.state).kind = .ruleStop)
    (isStack : visit.configuration.stack ≠ StackId.empty) :
    Leaves setting endIsFree visit search (tasksOf setting endIsFree visit search) := by
  have notAlong :
      goesAlongEdges setting.network search.found.fullContext visit.configuration = false := by
    simp [goesAlongEdges, stopped, isStack]
  have isResult :
      tasksOf setting endIsFree visit search =
        ((search.store.entries visit.configuration.stack).map (returnTask visit), search) := by
    simp [tasksOf, notAlong, isStack]
  have notBottom :
      search.found.fullContext = false →
        ∀ entry ∈ search.store.entries visit.configuration.stack,
          entry.returnState ≠ none ∧ search.store.Bottomless entry.below := by
    intro isWild
    exact (fitting.bottomless isWild).of_ne_empty isStack
  rw [isResult]
  refine {
    gains := (ConfigurationSet.Gains.refl fits).congr (by simp [keepsFirst, notAlong])
    visited := rfl
    leads := ?_
    complete := ?_
    ended := ?_ }
  · intro task member
    obtain ⟨⟨returnState, below⟩, present, rfl⟩ := List.mem_map.mp member
    cases returnState with
    | some follow =>
        refine .unchecked rfl ⟨?_, ?_, fitting.unguarded⟩ rfl ?_
        · exact fits.wellMade.below_valid fitting.valid present
        · exact fun isWild => (notBottom isWild _ present).2
        · intro returns holds
          exact ⟨follow :: returns, .entry present holds, .leave stopped⟩
    | none =>
        have isFull : search.found.fullContext = true := by
          by_contra isWild
          exact (notBottom (by simpa using isWild) _ present).1 rfl
        exact .keep isFull stopped (.bottom present (.inr rfl))
  · intro firstRule before returns state _ holds step
    cases step with
    | edge inside => exact absurd stopped inside
    | call inside => exact absurd stopped inside
    | leave _ =>
        rw [fits.wellMade.holds_iff, StackStore.spelledEntries, if_neg isStack] at holds
        obtain ⟨⟨returnState, below⟩, present, ⟨isNone, ends⟩ | ⟨_, _, isSome, same, rest⟩⟩ := holds
        · have isWild : search.found.fullContext = false := by
            simpa using ends
          exact absurd isNone (notBottom isWild _ present).1
        · cases same
          cases isSome
          exact ⟨_, List.mem_map_of_mem present, rfl, rfl, rest⟩
  · intro isFull _ holds
    rw [fits.wellMade.holds_iff, StackStore.spelledEntries, if_neg isStack] at holds
    obtain ⟨⟨returnState, below⟩, present, ⟨isNone, _⟩ | ⟨_, _, _, same, _⟩⟩ := holds
    · cases isNone
      exact List.mem_map_of_mem present
    · cases same

include shaped coherent plain fits fitting in
/-- Whatever a visit is about, its tasks are those that it should leave. -/
theorem leaves_tasksOf :
    Leaves setting endIsFree visit search (tasksOf setting endIsFree visit search) := by
  by_cases stopped : (setting.network.state visit.configuration.state).kind = .ruleStop
  · by_cases isEmpty : visit.configuration.stack = StackId.empty
    · cases mode : search.found.fullContext with
      | false => exact leaves_of_outermost shaped coherent plain fits fitting stopped isEmpty mode
      | true => exact leaves_of_ended fits stopped isEmpty mode
    · exact leaves_of_returning fits fitting stopped isEmpty
  · exact leaves_of_inside coherent plain fits fitting stopped

end Shaped

end Tasks

end Prediction

end GrammarService
