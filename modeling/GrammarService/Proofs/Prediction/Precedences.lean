import GrammarService.Proofs.Prediction.Repeating

namespace GrammarService

/-!
# The precedence of the rule invocation

Without the real rule invocations a condition on the precedence is noted, and not checked. So what
free edges and tokens lead to is the same at every precedence; only where a precedence loop is
decided does the first set depend on it, through the filter.
-/

namespace Prediction

/-- The same setting at another precedence. -/
def Setting.at
    (setting : Setting)
    (precedence : Int) :
    Setting :=
  { setting with precedence := precedence }

@[simp] theorem network_at
    (setting : Setting)
    (precedence : Int) :
    (setting.at precedence).network = setting.network :=
  rfl

/-- Two parts of a search without the real rule invocations come to the same, still without them. -/
def Search.Agree (one other : Search → Search) : Prop :=
  ∀ search : Search,
    search.found.fullContext = false →
      one search = other search ∧ (other search).found.fullContext = false

namespace Search.Agree

theorem refl
    {operation : Search → Search}
    (keeps :
      ∀ search : Search,
        search.found.fullContext = false → (operation search).found.fullContext = false) :
    Search.Agree operation operation :=
  fun search isWild => ⟨rfl, keeps search isWild⟩

/-- Parts that agree can be done one after the other. -/
theorem comp
    {one other next next' : Search → Search}
    (first : Search.Agree one other)
    (second : Search.Agree next next') :
    Search.Agree (fun search => next (one search)) (fun search => next' (other search)) := by
  intro search isWild
  obtain ⟨same, stillWild⟩ := first search isWild
  obtain ⟨sameNext, wildAfter⟩ := second _ stillWild
  exact ⟨(congrArg next same).trans sameNext, wildAfter⟩

/-- Parts that agree for each of some items agree for all of them in turn. -/
theorem foldl
    {ι : Type}
    {one other : Search → ι → Search}
    (each : ∀ item, Search.Agree (fun search => one search item) (fun search => other search item))
    (items : List ι) :
    Search.Agree (fun search => items.foldl one search)
      (fun search => items.foldl other search) := by
  induction items with
  | nil => exact .refl fun _ => id
  | cons head tail inductionHypothesis => exact (each head).comp inductionHypothesis

end Search.Agree

section Precedence

variable
  (setting : Setting)
  (precedence : Int)
  (endIsFree : Bool)

/-- Edges are passed alike at every precedence. -/
theorem passEdge?_at
    (collects inContext : Bool)
    (configuration : Configuration)
    (edge : Edge) :
    passEdge? (setting.at precedence) false endIsFree collects inContext configuration edge =
      passEdge? setting false endIsFree collects inContext configuration edge := by
  cases edge <;> rfl

/-- The edges of a state lead to the same visits at every precedence. -/
theorem visitsBehind_at
    (visit : Visit)
    (state : Network.State)
    (edges : List Edge) :
    visitsBehind (setting.at precedence) false endIsFree visit state edges =
      visitsBehind setting false endIsFree visit state edges := by
  induction edges with
  | nil => rfl
  | cons edge edges inductionHypothesis =>
      simp only [visitsBehind, inductionHypothesis, passEdge?_at]
      rfl

/-- Adding a configuration leaves the kind of stacks alone. -/
theorem Search.fullContext_add
    (search : Search)
    (configuration : Configuration) :
    (search.add configuration).found.fullContext = search.found.fullContext :=
  ConfigurationSet.fullContext_add

/-- Keeping a configuration that needs a token leaves the kind of stacks alone. -/
theorem fullContext_keptFirst
    (network : Network)
    (visit : Visit)
    (search : Search) :
    (keptFirst network visit search).found.fullContext = search.found.fullContext := by
  unfold keptFirst
  split
  · rfl
  · exact search.fullContext_add _

/-- A configuration is expanded alike at every precedence. -/
theorem expand_at
    (visit : Visit)
    {search : Search}
    (isWild : search.found.fullContext = false) :
    expand (setting.at precedence) endIsFree visit search =
        expand setting endIsFree visit search ∧
      (expand setting endIsFree visit search).2.found.fullContext = false := by
  have stillWild :
      (keptFirst setting.network visit search).found.fullContext = false :=
    (fullContext_keptFirst setting.network visit search).trans isWild
  refine ⟨?_, stillWild⟩
  simp only [expand_edgesToFollow, network_at, stillWild, visitsBehind_at]

/-- Ways to go on behind a configuration agree at every precedence. -/
def AgreeBehind (limit : Nat) : Prop :=
  ∀ visit : Visit,
    Search.Agree (follow (setting.at precedence) endIsFree limit visit)
      (follow setting endIsFree limit visit)

variable {setting precedence endIsFree} {limit : Nat}

/-- Edges are followed alike at every precedence if what is behind them is. -/
theorem agree_followEdges
    (behind : AgreeBehind setting precedence endIsFree limit)
    (visit : Visit) :
    Search.Agree (followEdges (setting.at precedence) endIsFree limit visit)
      (followEdges setting endIsFree limit visit) := by
  intro search isWild
  obtain ⟨same, stillWild⟩ := expand_at setting precedence endIsFree visit isWild
  unfold followEdges
  rw [same]
  exact Search.Agree.foldl behind _ _ stillWild

/-- Returns are followed alike at every precedence if what is behind them is. -/
theorem agree_followEntry
    (behind : AgreeBehind setting precedence endIsFree limit)
    (visit : Visit)
    (entry : StackEntry) :
    Search.Agree
      (fun search => followEntry (setting.at precedence) endIsFree false limit visit search entry)
      (fun search => followEntry setting endIsFree false limit visit search entry) := by
  intro search isWild
  cases isReturn : entry.returnState with
  | some returnState =>
      simp only [followEntry, isReturn]
      exact behind _ search isWild
  | none =>
      simp only [followEntry, isReturn, Bool.false_eq_true, if_false]
      exact agree_followEdges behind visit search isWild

/-- Free edges are followed alike at every precedence. -/
theorem agree_follow (limit : Nat) : AgreeBehind setting precedence endIsFree limit := by
  induction limit with
  | zero => exact fun visit => .refl fun _ => id
  | succ limit behind =>
      intro visit search isWild
      have markedWild : (search.mark visit).found.fullContext = false := by
        rw [found_mark]
        exact isWild
      simp only [follow_succ_entries, network_at, isWild]
      split
      · exact ⟨rfl, isWild⟩
      · split
        · exact agree_followEdges behind visit _ markedWild
        · split
          · exact ⟨rfl, (Search.fullContext_add _ _).trans markedWild⟩
          · exact Search.Agree.foldl (agree_followEntry behind visit) _ _ markedWild

/-- Several configurations are followed alike at every precedence. -/
theorem agree_followFrom
    (begins : Bool)
    (origins : List Configuration) :
    Search.Agree
      (fun search => origins.foldl (followFrom (setting.at precedence) endIsFree begins) search)
      (fun search => origins.foldl (followFrom setting endIsFree begins) search) := by
  refine Search.Agree.foldl (fun origin => ?_) origins
  intro search isWild
  exact agree_follow _ _ _ isWild

end Precedence

variable (setting : Setting) (precedence : Int)

/-- Without the real rule invocations a decision begins alike at every precedence. -/
theorem startSet_at
    (decisionState : Nat)
    (stack : StackId)
    (store : StackStore) :
    startSet (setting.at precedence) decisionState stack false store =
      startSet setting decisionState stack false store := by
  rw [startSet_eq, startSet_eq, network_at]
  have agree :=
    @agree_followFrom setting precedence false true (outsets setting.network decisionState stack)
      ⟨store, ConfigurationSet.empty false, ∅⟩ rfl
  dsimp only at agree ⊢
  rw [agree.1]

/-- Adding configurations leaves the kind of stacks alone. -/
theorem fullContext_addAll
    (set : ConfigurationSet)
    (store : StackStore)
    (added : List Configuration) :
    (addAll set store added).1.fullContext = set.fullContext := by
  induction added generalizing set store with
  | nil => rfl
  | cons head tail inductionHypothesis =>
      exact (inductionHypothesis _ _).trans ConfigurationSet.fullContext_add

/-- The configurations of a set are followed alike at every precedence. -/
theorem followAll_at
    (endIsFree : Bool)
    {set : ConfigurationSet}
    (isWild : set.fullContext = false)
    (store : StackStore) :
    followAll (setting.at precedence) endIsFree set store =
      followAll setting endIsFree set store := by
  rw [followAll_eq, followAll_eq, isWild]
  have agree :=
    @agree_followFrom setting precedence endIsFree false set.configurations.toList
      ⟨store, ConfigurationSet.empty false, ∅⟩ rfl
  dsimp only at agree ⊢
  rw [agree.1]

/-- Without the real rule invocations a token leads to the same at every precedence. -/
theorem reachSet?_at
    (set : ConfigurationSet)
    (symbol : Int)
    (store : StackStore) :
    reachSet? (setting.at precedence) set symbol false store =
      reachSet? setting set symbol false store := by
  have sameFollowed :
      followedSet (setting.at precedence) set symbol false store =
        followedSet setting set symbol false store := by
    have isWild :
        (addAll (ConfigurationSet.empty false) store
          (moveOver setting.network set symbol)).1.fullContext = false :=
      fullContext_addAll _ _ _
    unfold followedSet
    dsimp only
    rw [network_at, followAll_at setting precedence _ isWild]
  rw [reachSet?_eq, reachSet?_eq, sameFollowed, network_at]

end Prediction

end GrammarService
