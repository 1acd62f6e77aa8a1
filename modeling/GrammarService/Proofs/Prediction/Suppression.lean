import GrammarService.Proofs.Prediction.Filtering

namespace GrammarService

/-!
# Ways out of a precedence loop

Following free edges with a log of the ways along which configurations are found says which of them
the filter of a precedence loop must not drop: those that left the rule of the loop along a return
to a caller at precedence zero. They are marked when they leave, and stay marked along edges, into
calls and out of further rules. But a return along the stack takes the mark off again.
-/

namespace Prediction

/-- One step of a way along free edges. -/
inductive Pace
  /-- Along an edge of a state that is not the end of a rule. -/
  | along (edge : Edge)
  /-- Out of a rule along an edge to a caller, with nothing to return to. -/
  | leave (stop : Nat) (edge : Edge)
  /-- Back to where the stack returns to. -/
  | back (returnState : Nat)
  deriving DecidableEq

/-- A way has left a rule at precedence zero, and has not returned along a stack since. -/
inductive HasLeft (rule : Nat) : List Pace → Prop where
  | leaves
      (paces : List Pace)
      (stop target : Nat) :
      HasLeft rule (paces ++ [.leave stop (.epsilon target (some rule))])
  | goesOn
      {paces : List Pace}
      (hasLeft : HasLeft rule paces)
      (pace : Pace)
      (notBack : ∀ returnState, pace ≠ .back returnState) :
      HasLeft rule (paces ++ [pace])

theorem not_hasLeft_nil (rule : Nat) : ¬ HasLeft rule [] := by
  intro hasLeft
  generalize isNil : ([] : List Pace) = paces at hasLeft
  cases hasLeft <;> simp at isNil

/-- What the last step does to having left a rule. -/
theorem hasLeft_append_singleton_iff
    {rule : Nat}
    {paces : List Pace}
    {pace : Pace} :
    HasLeft rule (paces ++ [pace]) ↔
      (∃ stop target, pace = .leave stop (.epsilon target (some rule))) ∨
        HasLeft rule paces ∧ ∀ returnState, pace ≠ .back returnState := by
  constructor
  · intro hasLeft
    generalize isWhole : paces ++ [pace] = whole at hasLeft
    cases hasLeft with
    | leaves earlier stop target =>
        obtain ⟨-, isLast⟩ := List.append_inj' isWhole rfl
        exact .inl ⟨stop, target, List.head_eq_of_cons_eq isLast⟩
    | goesOn earlier last notBack =>
        obtain ⟨rfl, isLast⟩ := List.append_inj' isWhole rfl
        obtain rfl := List.head_eq_of_cons_eq isLast
        exact .inr ⟨earlier, notBack⟩
  · rintro (⟨stop, target, rfl⟩ | ⟨hasLeft, notBack⟩)
    · exact .leaves paces stop target
    · exact .goesOn hasLeft pace notBack

/-- The step along an edge of a state. -/
def Pace.ofEdge
    (state : Network.State)
    (edge : Edge) :
    Pace :=
  if state.kind = .ruleStop then .leave state.number edge else .along edge

/-- The visits behind the edges of a configuration, each with its edge. -/
def branchesBehind
    (setting : Setting)
    (fullContext endIsFree : Bool)
    (visit : Visit)
    (state : Network.State) :
    List Edge → StateM StackStore (List (Edge × Visit))
  | [] => return []
  | edge :: edges => do
      let visits ← visitsBehind setting fullContext endIsFree visit state [edge]
      let rest ← branchesBehind setting fullContext endIsFree visit state edges
      return visits.map (edge, ·) ++ rest

/-- A configuration that was added, and the way that led to it. -/
structure Added where
  paces : List Pace
  configuration : Configuration
  deriving DecidableEq

/-- A search with a log of what was added to its configurations. -/
structure Logged where
  search : Search
  log : List Added

namespace Logged

/-- Add the configuration that a way leads to. -/
def add
    (logged : Logged)
    (paces : List Pace)
    (configuration : Configuration) :
    Logged where
  search := logged.search.add configuration
  log := logged.log ++ [⟨paces, configuration⟩]

/-- Keep the configuration that a way leads to if it needs a token. -/
def keepFirst
    (network : Network)
    (visit : Visit)
    (paces : List Pace)
    (logged : Logged) :
    Logged :=
  if (network.state visit.configuration.state).epsilonOnly then
    logged
  else
    logged.add paces visit.configuration

/-- Follow the edges of a configuration; `behind` follows what they lead to. -/
def followEdges
    (setting : Setting)
    (endIsFree : Bool)
    (behind : Visit → List Pace → Logged → Logged)
    (visit : Visit)
    (paces : List Pace)
    (logged : Logged) :
    Logged :=
  let state := setting.network.state visit.configuration.state
  let kept := logged.keepFirst setting.network visit paces
  let opened :=
    (branchesBehind setting kept.search.found.fullContext endIsFree visit state
      (edgesToFollow setting.network visit.configuration kept.search.store)).run kept.search.store
  opened.1.foldl
    (fun logged branch => behind branch.2 (paces ++ [.ofEdge state branch.1]) logged)
    { kept with search := { kept.search with store := opened.2 } }

/-- Follow free edges, with a log of the ways to what is added. -/
def follow
    (setting : Setting)
    (endIsFree : Bool) :
    (limit : Nat) → Visit → List Pace → Logged → Logged
  | 0, _, _, logged => logged
  | limit + 1, visit, paces, logged =>
      let fullContext := logged.search.found.fullContext
      let marked := { logged with search := logged.search.mark visit }
      if logged.search.isKnown visit then
        logged
      else if goesAlongEdges setting.network fullContext visit.configuration then
        marked.followEdges setting endIsFree (follow setting endIsFree limit) visit paces
      else if visit.configuration.stack = StackId.empty then
        marked.add paces visit.configuration
      else
        (logged.search.store.entries visit.configuration.stack).foldl
          (fun logged entry =>
            match entry.returnState with
            | some returnState =>
                follow setting endIsFree limit
                  { configuration :=
                      { visit.configuration with
                        state := returnState
                        stack := entry.below
                        filterSuppressed := false }
                    collects := visit.collects
                    depth := visit.depth - 1
                    checked := false }
                  (paces ++ [.back returnState])
                  logged
            | none =>
                if fullContext then
                  logged.add paces { visit.configuration with stack := StackId.empty }
                else
                  logged.followEdges setting endIsFree (follow setting endIsFree limit) visit paces)
          marked

end Logged

/-- The first set of a decision, with a log of the ways to what is added. -/
def startLogged
    (setting : Setting)
    (decisionState : Nat)
    (stack : StackId)
    (fullContext : Bool)
    (store : StackStore) :
    Logged :=
  (outsets setting.network decisionState stack).foldl
    (fun logged origin =>
      Logged.follow setting false (followLimit setting.network origin.stack)
        (.outset true origin) []
        { logged with search := logged.search.refreshed true })
    ⟨⟨store, ConfigurationSet.empty fullContext, ∅⟩, []⟩

section Branches

variable
  {setting : Setting}
  {fullContext endIsFree : Bool}
  {visit : Visit}
  {state : Network.State}

/-- Edges are opened one after the other. -/
theorem visitsBehind_cons
    (edge : Edge)
    (edges : List Edge)
    (store : StackStore) :
    (visitsBehind setting fullContext endIsFree visit state (edge :: edges)).run store =
      let first := (visitsBehind setting fullContext endIsFree visit state [edge]).run store
      let rest := (visitsBehind setting fullContext endIsFree visit state edges).run first.2
      (first.1 ++ rest.1, rest.2) := by
  cases isCall : edge.isCall with
  | true =>
      cases edge with
      | call => rfl
      | _ => cases isCall
  | false =>
      rw [visitsBehind_other isCall, visitsBehind_other isCall]
      simp [visitsBehind]
      rfl

/-- The branches are the visits behind the edges. -/
theorem map_branchesBehind
    (edges : List Edge)
    (store : StackStore) :
    (visitsBehind setting fullContext endIsFree visit state edges).run store =
      let branches := (branchesBehind setting fullContext endIsFree visit state edges).run store
      (branches.1.map Prod.snd, branches.2) := by
  induction edges generalizing store with
  | nil => rfl
  | cons edge edges inductionHypothesis =>
      have isRun :
          (branchesBehind setting fullContext endIsFree visit state (edge :: edges)).run store =
            let first := (visitsBehind setting fullContext endIsFree visit state [edge]).run store
            let rest :=
              (branchesBehind setting fullContext endIsFree visit state edges).run first.2
            (first.1.map (edge, ·) ++ rest.1, rest.2) :=
        rfl
      rw [visitsBehind_cons, isRun]
      simp [inductionHypothesis]

/-- Behind an edge a configuration is marked if it was, or if it leaves the loop being decided. -/
theorem filterSuppressed_visitBehind
    (edge : Edge)
    (collects : Bool)
    (behind : Configuration) :
    (visitBehind setting visit state edge collects behind).configuration.filterSuppressed =
      (behind.filterSuppressed ||
        decide (state.kind = .ruleStop) && leavesDecidedLoop setting edge) := by
  unfold visitBehind
  split <;> simp [*]

/-- The visit behind an edge is marked if the one before it was, or if it leaves the loop. -/
theorem filterSuppressed_visitsBehind
    {edge : Edge}
    {store : StackStore}
    {next : Visit}
    (member :
      next ∈ ((visitsBehind setting fullContext endIsFree visit state [edge]).run store).1) :
    next.configuration.filterSuppressed =
      (visit.configuration.filterSuppressed ||
        decide (state.kind = .ruleStop) && leavesDecidedLoop setting edge) := by
  cases isCall : edge.isCall with
  | true =>
      cases edge with
      | call =>
          rw [visitsBehind_call] at member
          rw [List.mem_singleton.mp member, filterSuppressed_visitBehind]
      | _ => cases isCall
  | false =>
      rw [visitsBehind_other isCall] at member
      rcases List.mem_append.mp member with isHere | impossible
      · rw [Option.mem_toList, Option.map_eq_some_iff] at isHere
        obtain ⟨behind, isBehind, rfl⟩ := isHere
        rw [filterSuppressed_visitBehind, eq_of_passEdge? isBehind]
      · exact absurd impossible List.not_mem_nil

theorem filterSuppressed_of_mem_branchesBehind
    {edges : List Edge}
    {store : StackStore}
    {branch : Edge × Visit}
    (member :
      branch ∈ ((branchesBehind setting fullContext endIsFree visit state edges).run store).1) :
    branch.2.configuration.filterSuppressed =
      (visit.configuration.filterSuppressed ||
        decide (state.kind = .ruleStop) && leavesDecidedLoop setting branch.1) := by
  induction edges generalizing store with
  | nil => exact absurd member List.not_mem_nil
  | cons edge edges inductionHypothesis =>
      rcases List.mem_append.mp member with isFirst | isRest
      · obtain ⟨next, isNext, rfl⟩ := List.mem_map.mp isFirst
        exact filterSuppressed_visitsBehind isNext
      · exact inductionHypothesis isRest

end Branches

/-- A step along an edge leaves the rule of the loop exactly if the edge leads out of it. -/
theorem hasLeft_ofEdge_iff
    {setting : Setting}
    {rule : Nat}
    (isRule : setting.precedenceRule = some rule)
    {state : Network.State}
    {edge : Edge}
    {paces : List Pace} :
    HasLeft rule (paces ++ [.ofEdge state edge]) ↔
      HasLeft rule paces ∨ (state.kind = .ruleStop ∧ leavesDecidedLoop setting edge = true) := by
  rw [hasLeft_append_singleton_iff]
  unfold Pace.ofEdge leavesDecidedLoop
  rw [isRule]
  by_cases stopped : state.kind = .ruleStop
  · simp only [stopped, if_true, Pace.leave.injEq, ne_eq, reduceCtorEq, not_false_eq_true,
      implies_true, and_true, true_and, exists_and_left, exists_eq_left']
    rw [or_comm]
    refine or_congr_right ?_
    cases edge with
    | epsilon target returning =>
        cases returning <;> simp [@eq_comm _ rule]
    | _ => simp
  · simp [stopped]

namespace Logged

variable
  {setting : Setting}
  {endIsFree : Bool}
  {limit : Nat}

@[simp] theorem search_add
    (logged : Logged)
    (paces : List Pace)
    (configuration : Configuration) :
    (logged.add paces configuration).search = logged.search.add configuration :=
  rfl

/-- The search that is logged keeps what the search itself does. -/
theorem search_keepFirst
    (network : Network)
    (visit : Visit)
    (paces : List Pace)
    (logged : Logged) :
    (logged.keepFirst network visit paces).search = keptFirst network visit logged.search := by
  unfold keepFirst keptFirst
  split <;> rfl

/-- The search that is logged follows edges as the search itself does, if it does behind them. -/
theorem search_followEdges
    {behind : Visit → List Pace → Logged → Logged}
    (same :
      ∀ visit paces (logged : Logged),
        (behind visit paces logged).search =
          Prediction.follow setting endIsFree limit visit logged.search)
    (visit : Visit)
    (paces : List Pace)
    (logged : Logged) :
    (logged.followEdges setting endIsFree behind visit paces).search =
      Prediction.followEdges setting endIsFree limit visit logged.search := by
  unfold followEdges Prediction.followEdges
  rw [expand_edgesToFollow, ← search_keepFirst _ _ paces]
  simp only [map_branchesBehind, List.foldl_map]
  exact (List.foldl_hom Logged.search fun logged (branch : Edge × Visit) =>
    (same branch.2 _ logged).symm).symm

/-- The search that is logged is the search itself. -/
theorem search_follow
    (visit : Visit)
    (paces : List Pace)
    (logged : Logged) :
    (follow setting endIsFree limit visit paces logged).search =
      Prediction.follow setting endIsFree limit visit logged.search := by
  induction limit generalizing visit paces logged with
  | zero => rfl
  | succ limit inductionHypothesis =>
      rw [follow_succ_entries, follow]
      split
      · rfl
      · split
        · exact search_followEdges inductionHypothesis visit paces _
        · split
          · rfl
          · refine (List.foldl_hom Logged.search fun logged entry => ?_).symm
            unfold followEntry
            cases entry.returnState with
            | some returnState => exact (inductionHypothesis _ _ logged).symm
            | none =>
                dsimp only
                split
                · rfl
                · exact (search_followEdges inductionHypothesis visit paces logged).symm

/--
What was added is marked exactly if its way has left the rule of the loop and not returned since,
and the configuration of its state, alternative and condition is marked if it is.
-/
structure Marks
    (rule : Nat)
    (logged : Logged) :
    Prop where
  isIndexed : logged.search.found.IsIndexed
  exact :
    ∀ added ∈ logged.log,
      added.configuration.filterSuppressed = true ↔ HasLeft rule added.paces
  found :
    ∀ added ∈ logged.log,
      ∃ present,
        logged.search.found.find? (ConfigurationSet.indexKey added.configuration) =
            some present ∧
          (added.configuration.filterSuppressed = true → present.filterSuppressed = true)

variable {rule : Nat} {logged : Logged}

/-- Adding a configuration keeps the marks. -/
theorem Marks.add
    (marks : logged.Marks rule)
    {paces : List Pace}
    {configuration : Configuration}
    (isMarked : configuration.filterSuppressed = true ↔ HasLeft rule paces) :
    (logged.add paces configuration).Marks rule where
  isIndexed := marks.isIndexed.add configuration _
  exact := by
    intro added member
    rcases List.mem_append.mp member with isOld | isNew
    · exact marks.exact added isOld
    · rw [List.mem_singleton.mp isNew]
      exact isMarked
  found := by
    intro added member
    have isFound := marks.isIndexed.find?_add configuration logged.search.store
      (ConfigurationSet.indexKey added.configuration)
    change (logged.search.add configuration).found.find? _ = _ at isFound
    rw [search_add, isFound]
    rcases List.mem_append.mp member with isOld | isNew
    · obtain ⟨present, isPresent, staysMarked⟩ := marks.found added isOld
      rw [isPresent]
      split
      · refine ⟨_, rfl, fun wasMarked => ?_⟩
        simp [Configuration.pooledWith, Configuration.joinedWith, staysMarked wasMarked]
      · exact ⟨present, rfl, staysMarked⟩
    · rw [List.mem_singleton.mp isNew, if_pos rfl]
      refine ⟨_, rfl, fun wasMarked => ?_⟩
      cases logged.search.found.find? (ConfigurationSet.indexKey configuration) with
      | none => exact wasMarked
      | some present => exact Bool.or_eq_true_iff.mpr (.inr wasMarked)

/-- Marks do not depend on what was visited, nor on the store. -/
theorem Marks.withSearch
    (marks : logged.Marks rule)
    {search : Search}
    (sameFound : search.found = logged.search.found) :
    Marks rule { logged with search := search } where
  isIndexed := sameFound ▸ marks.isIndexed
  exact := marks.exact
  found := sameFound ▸ marks.found

/-- Following edges keeps the marks, if following what is behind them does. -/
theorem Marks.followEdges
    (marks : logged.Marks rule)
    (isRule : setting.precedenceRule = some rule)
    {behind : Visit → List Pace → Logged → Logged}
    (follows :
      ∀ {visit : Visit} {paces : List Pace} {logged : Logged},
        logged.Marks rule →
          (visit.configuration.filterSuppressed = true ↔ HasLeft rule paces) →
            (behind visit paces logged).Marks rule)
    {visit : Visit}
    {paces : List Pace}
    (isMarked : visit.configuration.filterSuppressed = true ↔ HasLeft rule paces) :
    (logged.followEdges setting endIsFree behind visit paces).Marks rule := by
  have kept : (logged.keepFirst setting.network visit paces).Marks rule := by
    unfold keepFirst
    split
    · exact marks
    · exact marks.add isMarked
  refine List.foldlRecOn _ _ (motive := Marks rule) (kept.withSearch rfl) ?_
  intro logged marks branch member
  refine follows marks ?_
  rw [filterSuppressed_of_mem_branchesBehind member, hasLeft_ofEdge_iff isRule, ← isMarked]
  simp

/-- Following free edges keeps the marks. -/
theorem Marks.follow
    (marks : logged.Marks rule)
    (isRule : setting.precedenceRule = some rule)
    {visit : Visit}
    {paces : List Pace}
    (isMarked : visit.configuration.filterSuppressed = true ↔ HasLeft rule paces) :
    (Logged.follow setting endIsFree limit visit paces logged).Marks rule := by
  induction limit generalizing visit paces logged with
  | zero => exact marks
  | succ limit inductionHypothesis =>
      have marked := marks.withSearch (found_mark logged.search visit)
      rw [Logged.follow]
      split
      · exact marks
      · split
        · exact marked.followEdges isRule (fun marks => inductionHypothesis marks) isMarked
        · split
          · exact marked.add isMarked
          · refine List.foldlRecOn _ _ (motive := Marks rule) marked ?_
            intro logged marks entry _
            cases entry.returnState with
            | some returnState =>
                refine inductionHypothesis marks ?_
                rw [hasLeft_append_singleton_iff]
                simp
            | none =>
                dsimp only
                split
                · exact marks.add isMarked
                · exact marks.followEdges isRule (fun marks => inductionHypothesis marks) isMarked

end Logged

/-- The search that is logged finds the first set of the decision. -/
theorem search_startLogged
    (setting : Setting)
    (decisionState : Nat)
    (stack : StackId)
    (fullContext : Bool)
    (store : StackStore) :
    ((startLogged setting decisionState stack fullContext store).search.found,
        (startLogged setting decisionState stack fullContext store).search.store) =
      startSet setting decisionState stack fullContext store := by
  have same :
      (startLogged setting decisionState stack fullContext store).search =
        (outsets setting.network decisionState stack).foldl (followFrom setting false true)
          ⟨store, ConfigurationSet.empty fullContext, ∅⟩ := by
    refine (List.foldl_hom Logged.search fun logged origin => ?_).symm
    exact
      (Logged.search_follow (.outset true origin) []
        { logged with search := logged.search.refreshed true }).symm
  rw [startSet_eq, same]

/-- What is added to the first set of a decision has its marks. -/
theorem marks_startLogged
    {setting : Setting}
    {rule : Nat}
    (isRule : setting.precedenceRule = some rule)
    (decisionState : Nat)
    (stack : StackId)
    (fullContext : Bool)
    (store : StackStore) :
    (startLogged setting decisionState stack fullContext store).Marks rule := by
  refine List.foldlRecOn _ _ (motive := Logged.Marks rule) ?_ ?_
  · exact ⟨.empty fullContext, by simp, by simp⟩
  · intro logged marks origin member
    obtain ⟨edge, -, rfl⟩ := List.mem_map.mp member
    have refreshed : Logged.Marks rule { logged with search := logged.search.refreshed true } :=
      marks.withSearch rfl
    refine refreshed.follow isRule ?_
    simp [Visit.outset, Configuration.start, not_hasLeft_nil]

/--
What a way out of a precedence loop comes to. Of all that is added to the first set of a decision,
just that is marked whose way has left the rule of the loop along a return at precedence zero and
has not returned along a stack since. What is marked stays so in the set, and the filter keeps it.
-/
theorem marked_iff_hasLeft
    (setting : Setting)
    {rule : Nat}
    (isRule : setting.precedenceRule = some rule)
    (decisionState : Nat)
    {store : StackStore}
    (wellMade : store.WellMade)
    {stack : StackId}
    (isIn : store.IsIn stack)
    (fullContext : Bool) :
    let begun := startSet setting decisionState stack fullContext store
    let logged := startLogged setting decisionState stack fullContext store
    (logged.search.found, logged.search.store) = begun ∧
      ∀ added ∈ logged.log,
        (added.configuration.filterSuppressed = true ↔ HasLeft rule added.paces) ∧
          ∃ present ∈ begun.1.configurations,
            ConfigurationSet.indexKey present =
                ConfigurationSet.indexKey added.configuration ∧
              (HasLeft rule added.paces →
                present.filterSuppressed = true ∧
                  (present.alternative ≠ 1 →
                    present ∈ (filterByPrecedence setting begun.1 begun.2).1.configurations)) := by
  intro begun logged
  have same := search_startLogged setting decisionState stack fullContext store
  have sameFound : logged.search.found = begun.1 := congrArg Prod.fst same
  have marks := marks_startLogged isRule decisionState stack fullContext store
  have holds := repeats_startSet setting decisionState fullContext wellMade isIn
  have keeps :=
    filterByPrecedence_keeps setting (isMade_startSet setting decisionState stack fullContext store)
      holds.wellMade holds.valid
  refine ⟨same, fun added member => ⟨marks.exact added member, ?_⟩⟩
  obtain ⟨present, isFound, staysMarked⟩ := marks.found added member
  obtain ⟨isPresent, sameKey⟩ := marks.isIndexed.find?_eq_some_iff.mp isFound
  change present ∈ logged.search.found.configurations at isPresent
  rw [sameFound] at isPresent
  refine ⟨present, isPresent, sameKey, fun hasLeft => ?_⟩
  have isMarked := staysMarked ((marks.exact added member).mpr hasLeft)
  exact ⟨isMarked, fun isOther => (keeps.2.2 present isOther).mpr ⟨isPresent, .inl isMarked⟩⟩

namespace EmptySuffix

/--
An encoded network for `s : e EOF`, `e : 'i' | e 'a' 'b' t`, `t : e n` and `n : 'y' |`. Behind `e`
in `t` comes `n`, which need not match anything. Whether to go on with `e` is decided at state 11.
-/
def encoded : List Int :=
  [4, 1, 5, 28, 2, 0, 7, 0, 2, 1, 7, 1, 2, 2, 7, 2, 2, 3, 7, 3, 1, 0, 1, 0, 1, 1, 10, 1, 5, 1, 14,
    12, 1, 15, 8, 1, 9, 1, 1, 1, 1, 1, 1, 1, 1, 1, 1, 1, 1, 2, 1, 2, 1, 2, 3, 3, 25, 8, 3, 1, 3, 1,
    3, 0, 1, 2, 4, 0, 2, 4, 6, 0, 0, 26, 0, 8, 1, 0, 0, 0, 8, 9, 3, 2, 1, 0, 9, 1, 5, 0, 0, 1, 2,
    10, 1, 0, 0, 0, 10, 11, 5, 1, 0, 0, 11, 12, 1, 0, 0, 0, 11, 13, 1, 0, 0, 0, 13, 3, 1, 0, 0, 0,
    12, 16, 1, 0, 0, 0, 16, 17, 10, 2, 0, 0, 17, 18, 5, 2, 0, 0, 18, 19, 5, 3, 0, 0, 19, 20, 3, 4,
    2, 0, 20, 14, 1, 0, 0, 0, 14, 15, 1, 0, 0, 0, 15, 11, 1, 0, 0, 0, 4, 21, 1, 0, 0, 0, 21, 22, 3,
    2, 1, 0, 22, 23, 3, 6, 3, 0, 23, 5, 1, 0, 0, 0, 6, 24, 1, 0, 0, 0, 24, 26, 1, 0, 0, 0, 24, 25,
    1, 0, 0, 0, 26, 27, 5, 4, 0, 0, 27, 25, 1, 0, 0, 0, 25, 7, 1, 0, 0, 0, 2, 11, 24]

/-- The decision in an outermost invocation of `e`. -/
def setting : Setting where
  network := (Network.decode encoded).toOption.getD default
  precedenceRule := some 1
  precedence := 0

/-- Out of `e` into `t`, through `n` without a token, out of `t` and around the loop of `e`. -/
def way : List Pace :=
  [.along (.epsilon 3 none), .leave 3 (.epsilon 22 (some 1)), .along (.call 6 3 0 23),
    .along (.epsilon 24 none), .along (.epsilon 25 none), .along (.epsilon 7 none), .back 23,
    .along (.epsilon 5 none), .leave 5 (.epsilon 20 none), .along (.epsilon 14 none),
    .along (.epsilon 15 none), .along (.epsilon 11 none), .along (.epsilon 12 none),
    .along (.epsilon 16 none), .along (.precedence 17 2)]

/-- Before `'a'` in the loop of the outer `e`. -/
def lost : Configuration where
  state := 17
  alternative := 2
  stack := StackId.empty
  condition := .always
  outerReaches := 2
  filterSuppressed := false

theorem marks_ways :
    setting.precedenceRule = some 1 ∧ StackStore.initial.WellMade ∧
      StackStore.initial.IsIn StackId.empty ∧
        ∀ added ∈ (startLogged setting 11 StackId.empty false StackStore.initial).log,
          added.configuration.filterSuppressed = true ↔ HasLeft 1 added.paces :=
  have isRule : setting.precedenceRule = some 1 := rfl
  have wellMade := StackStore.WellMade.initial
  have marked := marked_iff_hasLeft setting isRule 11 wellMade wellMade.empty_valid false
  ⟨isRule, wellMade, wellMade.empty_valid, fun added member => (marked.2 added member).1⟩

set_option maxRecDepth 20000 in
/--
A way leaves `e` at precedence zero and then passes through `n` without a token. What it comes to is
not marked any more, and the filter drops it.
-/
theorem drops_lost :
    Network.decode encoded = .ok setting.network ∧
      ⟨way, lost⟩ ∈ (startLogged setting 11 StackId.empty false StackStore.initial).log ∧
        Pace.leave 3 (.epsilon 22 setting.precedenceRule) ∈ way ∧
          lost.filterSuppressed = false ∧
            let begun := startSet setting 11 StackId.empty false StackStore.initial
            lost ∈ begun.1.configurations ∧
              lost ∉ (filterByPrecedence setting begun.1 begun.2).1.configurations := by
  have isLogged :
      (startLogged setting 11 StackId.empty false StackStore.initial).log.contains
        ⟨way, lost⟩ = true := by
    cbv
  -- Both are read off the set at once, so that it is computed only once.
  have isDropped :
      (fun begun : ConfigurationSet × StackStore =>
        begun.1.configurations.contains lost &&
          !(filterByPrecedence setting begun.1 begun.2).1.configurations.contains lost)
          (startSet setting 11 StackId.empty false StackStore.initial) =
        true := by
    cbv
  simp only [Bool.and_eq_true, Bool.not_eq_true', Array.contains_iff_mem,
    ← Bool.not_eq_true] at isDropped
  exact ⟨by cbv, List.contains_iff_mem.mp isLogged, by decide, rfl, isDropped⟩

end EmptySuffix

end Prediction

end GrammarService
