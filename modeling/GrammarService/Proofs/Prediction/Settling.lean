import GrammarService.Proofs.Prediction.Finished
import GrammarService.Proofs.Token.Visible

namespace GrammarService

/-!
# Predictions in context settle

With the real rule invocations every way back leads to the rule that parsing began with. Where a
prediction has come to the end of a rule and returns no further, it is at the end of that one. So at
the end of the input all that is left is in one place, where the lowest alternative is taken.
-/

open StackStore (IsIn)

/-- Every way back from a configuration ends in the given rule. -/
structure Configuration.EndsIn
    (network : Network)
    (rule : Nat)
    (store : StackStore)
    (configuration : Configuration) :
    Prop where
  isIn : store.IsIn configuration.stack
  outermost :
    ∀ {returns : List Nat},
      store.Holds false configuration.stack returns →
        (network.state (returns.getLastD configuration.state)).rule = some rule

/-- A configuration that has come to the end of a rule returns no further. -/
def Configuration.HasReturned
    (network : Network)
    (configuration : Configuration) :
    Prop :=
  (network.state configuration.state).kind = .ruleStop → configuration.stack = StackId.empty

namespace Configuration.EndsIn

variable
  {network : Network}
  {rule : Nat}
  {store after : StackStore}
  {configuration : Configuration}

/-- In a larger store the ways back are the same. -/
theorem grows
    (endsIn : configuration.EndsIn network rule store)
    (wellMade : store.WellMade)
    (grows : store.Grows after) :
    configuration.EndsIn network rule after where
  isIn := grows.valid endsIn.isIn
  outermost holds := endsIn.outermost ((grows.holds_iff wellMade endsIn.isIn).mp holds)

/-- Another state of the same rule has the same ways back. -/
theorem move
    (endsIn : configuration.EndsIn network rule store)
    {behind : Configuration}
    (sameStack : behind.stack = configuration.stack)
    (sameRule : (network.state behind.state).rule = (network.state configuration.state).rule) :
    behind.EndsIn network rule store where
  isIn := sameStack ▸ endsIn.isIn
  outermost := by
    intro returns holds
    rw [sameStack] at holds
    have isRule := endsIn.outermost holds
    cases returns with
    | nil => exact sameRule.trans isRule
    | cons follow outer =>
        rw [List.getLastD_cons] at isRule ⊢
        exact isRule

/-- A configuration without a stack is in the rule itself. -/
theorem ofHolds_nil
    (endsIn : configuration.EndsIn network rule store)
    (wellMade : store.WellMade)
    (holds : store.Holds false configuration.stack []) :
    { configuration with stack := StackId.empty }.EndsIn network rule store where
  isIn := wellMade.empty_valid
  outermost := by
    intro returns isEmpty
    obtain rfl : returns = [] := by simpa using wellMade.holds_empty_iff.mp isEmpty
    exact endsIn.outermost holds

/-- What an entry of the stack returns to has the ways back that go on there. -/
theorem goBack
    (endsIn : configuration.EndsIn network rule store)
    (wellMade : store.WellMade)
    {follow : Nat}
    {below : StackId}
    (present : ⟨some follow, below⟩ ∈ store.entries configuration.stack)
    {behind : Configuration}
    (isFollow : behind.state = follow)
    (isBelow : behind.stack = below) :
    behind.EndsIn network rule store where
  isIn := isBelow ▸ wellMade.below_valid endsIn.isIn present
  outermost := by
    intro returns holds
    rw [isBelow] at holds
    have isRule := endsIn.outermost (.entry present holds)
    rw [List.getLastD_cons] at isRule
    rw [isFollow]
    exact isRule

/-- A rule that was called goes back to where the calling rule goes on. -/
theorem call
    (endsIn : configuration.EndsIn network rule store)
    (wellMade : store.WellMade)
    {follow : Nat}
    (sameRule : (network.state follow).rule = (network.state configuration.state).rule)
    {behind : Configuration}
    (isStack : behind.stack = ((StackStore.push configuration.stack follow).run store).1) :
    behind.EndsIn network rule
      ((StackStore.push configuration.stack follow).run store).2 := by
  have interns := StackStore.interns_push wellMade endsIn.isIn follow
  refine ⟨isStack ▸ interns.valid, ?_⟩
  intro returns holds
  rw [isStack, Prediction.holds_of_spelledEntries interns.wellMade interns.spelled] at holds
  obtain ⟨outer, rfl, holds⟩ := holds
  have isRule := endsIn.outermost ((interns.grows.holds_iff wellMade endsIn.isIn).mp holds)
  cases outer with
  | nil => exact sameRule.trans isRule
  | cons =>
      rw [List.getLastD_cons, List.getLastD_cons]
      rw [List.getLastD_cons] at isRule
      exact isRule

end Configuration.EndsIn

namespace ConfigurationSet

/-- All ways back from the configurations of a set end in the given rule. -/
structure EndsIn
    (network : Network)
    (rule : Nat)
    (store : StackStore)
    (set : ConfigurationSet) :
    Prop where
  fullContext : set.fullContext = true
  only : set.Only fun _ => True
  each : ∀ configuration ∈ set.configurations, configuration.EndsIn network rule store

/-- No configuration of a set waits to return. -/
def HasReturned
    (network : Network)
    (set : ConfigurationSet) :
    Prop :=
  ∀ configuration ∈ set.configurations, configuration.HasReturned network

namespace EndsIn

variable
  {network : Network}
  {rule : Nat}
  {store after : StackStore}
  {set : ConfigurationSet}
  {configuration : Configuration}

theorem empty
    (network : Network)
    (rule : Nat)
    (store : StackStore) :
    (ConfigurationSet.empty true).EndsIn network rule store where
  fullContext := rfl
  only := .empty _ _
  each := by simp [ConfigurationSet.empty]

theorem isIn (endsIn : set.EndsIn network rule store) : set.IsIn store :=
  fun configuration member => (endsIn.each configuration member).isIn

theorem grows
    (endsIn : set.EndsIn network rule store)
    (wellMade : store.WellMade)
    (grows : store.Grows after) :
    set.EndsIn network rule after where
  fullContext := endsIn.fullContext
  only := endsIn.only
  each configuration member := (endsIn.each configuration member).grows wellMade grows

theorem retain
    (endsIn : set.EndsIn network rule store)
    (keeps : Configuration → Bool) :
    (set.retain keeps).EndsIn network rule store where
  fullContext := endsIn.fullContext
  only := endsIn.only.retain keeps
  each configuration member := endsIn.each configuration (mem_retain.mp member).1

/-- The index leads to a configuration that is there, in the same state. -/
theorem twin
    (endsIn : set.EndsIn network rule store)
    {position : Nat}
    (known : set.index[indexKey configuration]? = some position) :
    ∃ twin,
      set.configurations[position]? = some twin ∧
        set.configurations.getD position configuration = twin ∧
          twin.state = configuration.state := by
  obtain ⟨twin, isTwin, sameKey⟩ := endsIn.only.indexed known
  simp only [indexKey, Prod.mk.injEq] at sameKey
  exact ⟨twin, isTwin, by simp [Array.getD_eq_getD_getElem?, isTwin], sameKey.1⟩

/-- A merged stack has the ways back of both, and no others. -/
theorem add
    (endsIn : set.EndsIn network rule store)
    (wellMade : store.WellMade)
    (added : configuration.EndsIn network rule store) :
    ((set.add configuration).run store).1.EndsIn network rule
      ((set.add configuration).run store).2 := by
  refine ⟨fullContext_add.trans endsIn.fullContext, endsIn.only.add trivial store, ?_⟩
  intro present member
  cases known : set.index[indexKey configuration]? with
  | none =>
      rw [add_of_new known] at member ⊢
      rcases Array.mem_push.mp member with isOld | rfl
      · exact endsIn.each present isOld
      · exact added
  | some position =>
      rw [add_of_known known] at member ⊢
      obtain ⟨twin, isTwin, isPresent, sameState⟩ := endsIn.twin known
      have twinEndsIn := endsIn.each twin (Array.mem_of_getElem? isTwin)
      simp only [isPresent, endsIn.fullContext, Bool.not_true] at member ⊢
      have merges :=
        @StackStore.merges_merge store false twin.stack configuration.stack wellMade
          twinEndsIn.isIn added.isIn
      obtain ⟨place, isPlace⟩ := Array.getElem?_of_mem member
      rw [Array.getElem?_modify] at isPlace
      split at isPlace
      · rename_i same
        rw [← same, isTwin] at isPlace
        cases isPlace
        refine ⟨merges.valid, ?_⟩
        intro returns holds
        rcases merges.joins.lower rfl holds with ofTwin | ofAdded
        · exact (twinEndsIn.grows wellMade merges.grows).outermost ofTwin
        · have isRule := (added.grows wellMade merges.grows).outermost ofAdded
          rw [← sameState] at isRule
          exact isRule
      · exact (endsIn.each present (Array.mem_of_getElem? isPlace)).grows wellMade merges.grows

/-- Where neither of two configurations has a stack, they have none together. -/
theorem hasReturned_add
    (endsIn : set.EndsIn network rule store)
    (returned : set.HasReturned network)
    (addedReturned : configuration.HasReturned network) :
    ((set.add configuration).run store).1.HasReturned network := by
  intro present member
  cases known : set.index[indexKey configuration]? with
  | none =>
      rw [add_of_new known] at member
      rcases Array.mem_push.mp member with isOld | rfl
      · exact returned present isOld
      · exact addedReturned
  | some position =>
      rw [add_of_known known] at member
      obtain ⟨twin, isTwin, isPresent, sameState⟩ := endsIn.twin known
      simp only [isPresent] at member
      obtain ⟨place, isPlace⟩ := Array.getElem?_of_mem member
      rw [Array.getElem?_modify] at isPlace
      split at isPlace
      · rename_i same
        rw [← same, isTwin] at isPlace
        cases isPlace
        intro stopped
        have twinEmpty := returned twin (Array.mem_of_getElem? isTwin) stopped
        have addedEmpty := addedReturned (sameState ▸ stopped)
        simp [Configuration.joinedWith, twinEmpty, addedEmpty, StackStore.merge,
          StackStore.mergeWithin]
        rfl
      · exact returned present (Array.mem_of_getElem? isPlace)

end EndsIn

end ConfigurationSet

namespace Prediction

/-- An edge leads to its target. -/
theorem state_of_passEdge?
    {setting : Setting}
    {fullContext endIsFree collects inContext : Bool}
    {configuration behind : Configuration}
    {edge : Edge}
    (isBehind :
      passEdge? setting fullContext endIsFree collects inContext configuration edge =
        some behind) :
    behind.state = edge.target := by
  rw [eq_of_passEdge? isBehind]

/-- Inside a rule the configuration behind an edge is followed as it is. -/
theorem configuration_visitBehind
    {setting : Setting}
    {visit : Visit}
    {state : Network.State}
    (inside : state.kind ≠ .ruleStop)
    (edge : Edge)
    (collects : Bool)
    (behind : Configuration) :
    (visitBehind setting visit state edge collects behind).configuration = behind := by
  simp [visitBehind, inside]

/-- The edges along which to follow a configuration are those of its state. -/
theorem mem_edges_of_mem_edgesToFollow
    {network : Network}
    {configuration : Configuration}
    {store : StackStore}
    {edge : Edge}
    (member : edge ∈ edgesToFollow network configuration store) :
    edge ∈ (network.state configuration.state).edges := by
  unfold edgesToFollow at member
  split at member
  · exact List.mem_of_mem_drop member
  · exact member

/-- All ways back from what a search has found end in the given rule, and none waits to return. -/
structure Search.EndsIn
    (network : Network)
    (rule : Nat)
    (search : Search) :
    Prop where
  wellMade : search.store.WellMade
  found : search.found.EndsIn network rule search.store
  returned : search.found.HasReturned network

/-- A part of a search only adds to the store, and what it finds ends in the given rule. -/
structure Search.Stays
    (network : Network)
    (rule : Nat)
    (before after : Search) :
    Prop where
  endsIn : after.EndsIn network rule
  grows : before.store.Grows after.store

namespace Search

variable {network : Network} {rule : Nat} {search : Search} {configuration : Configuration}

theorem EndsIn.holds (endsIn : search.EndsIn network rule) : search.Holds :=
  ⟨endsIn.wellMade, endsIn.found.isIn⟩

theorem EndsIn.stays (endsIn : search.EndsIn network rule) : search.Stays network rule search :=
  ⟨endsIn, .refl _⟩

theorem Stays.trans
    {middle last : Search}
    (earlier : search.Stays network rule middle)
    (later : middle.Stays network rule last) :
    search.Stays network rule last :=
  ⟨later.endsIn, earlier.grows.trans later.grows⟩

/-- What is kept has come to where it need not return. -/
theorem EndsIn.add
    (endsIn : search.EndsIn network rule)
    (added : configuration.EndsIn network rule search.store)
    (returned : configuration.HasReturned network) :
    search.Stays network rule (search.add configuration) := by
  have adds := endsIn.holds.repeats_add added.isIn
  exact ⟨⟨adds.holds.wellMade, endsIn.found.add endsIn.wellMade added,
    endsIn.found.hasReturned_add endsIn.returned returned⟩, adds.extension.toGrows⟩

/-- Marking a visit finds nothing. -/
theorem EndsIn.mark
    (endsIn : search.EndsIn network rule)
    (visit : Visit) :
    (search.mark visit).EndsIn network rule := by
  refine ⟨?_, ?_, ?_⟩
  · rw [store_mark]
    exact endsIn.wellMade
  · rw [found_mark, store_mark]
    exact endsIn.found
  · rw [found_mark]
    exact endsIn.returned

/-- What stays for each of some items stays for all of them in turn. -/
theorem EndsIn.foldl
    {ι : Type}
    (operation : Search → ι → Search)
    (valid : ι → StackStore → Prop)
    (grows :
      ∀ {item : ι} {store after : StackStore},
        store.WellMade → store.Grows after → valid item store → valid item after)
    (each :
      ∀ {item : ι} {search : Search},
        search.EndsIn network rule → valid item search.store →
          search.Stays network rule (operation search item))
    (items : List ι)
    (endsIn : search.EndsIn network rule)
    (areValid : ∀ item ∈ items, valid item search.store) :
    search.Stays network rule (items.foldl operation search) := by
  induction items generalizing search with
  | nil => exact endsIn.stays
  | cons head tail inductionHypothesis =>
      have first := each endsIn (areValid head List.mem_cons_self)
      exact first.trans (inductionHypothesis first.endsIn fun item member =>
        grows endsIn.wellMade first.grows (areValid item (List.mem_cons_of_mem _ member)))

end Search

section Following

variable
  {setting : Setting}
  {rule : Nat}
  {endIsFree : Bool}
  (shaped : setting.network.CompilerShaped)

include shaped

/-- Behind the edges of a state inside a rule all ways back end where they did. -/
theorem endsIn_visitsBehind
    {fullContext : Bool}
    {visit : Visit}
    {store : StackStore}
    (wellMade : store.WellMade)
    (endsIn : visit.configuration.EndsIn setting.network rule store)
    (inside : (setting.network.state visit.configuration.state).kind ≠ .ruleStop)
    (edges : List Edge)
    (present :
      ∀ edge ∈ edges, edge ∈ (setting.network.state visit.configuration.state).edges) :
    let opened :=
      (visitsBehind setting fullContext endIsFree visit
        (setting.network.state visit.configuration.state) edges).run store
    ∀ next ∈ opened.1, next.configuration.EndsIn setting.network rule opened.2 := by
  induction edges generalizing store with
  | nil => exact fun _ impossible => absurd impossible List.not_mem_nil
  | cons edge edges inductionHypothesis =>
      have isPresent := present edge List.mem_cons_self
      have others := fun edge member => present edge (List.mem_cons_of_mem _ member)
      intro opened next member
      cases isCall : edge.isCall with
      | true =>
          cases edge with
          | call target called follow precedence =>
              have pushes := StackStore.repeats_push wellMade endsIn.isIn precedence
              have grows := pushes.extension.toGrows
              have later := endsIn.grows wellMade grows
              have rest :=
                @repeats_visitsBehind setting fullContext endIsFree visit
                  (setting.network.state visit.configuration.state) _ pushes.wellMade later.isIn edges
              simp only [opened, visitsBehind_call] at member ⊢
              rcases List.mem_cons.mp member with rfl | isRest
              · rw [configuration_visitBehind inside]
                exact (endsIn.call wellMade (shaped.returns inside isPresent) rfl).grows
                  pushes.wellMade rest.extension.toGrows
              · exact inductionHypothesis pushes.wellMade later others next isRest
          | _ => cases isCall
      | false =>
          have rest :=
            @repeats_visitsBehind setting fullContext endIsFree visit
              (setting.network.state visit.configuration.state) _ wellMade endsIn.isIn edges
          simp only [opened, visitsBehind_other isCall] at member ⊢
          rcases List.mem_append.mp member with isHere | isRest
          · rw [Option.mem_toList, Option.map_eq_some_iff] at isHere
            obtain ⟨behind, isBehind, rfl⟩ := isHere
            rw [configuration_visitBehind inside]
            refine (endsIn.move (stack_of_passEdge? isBehind) ?_).grows wellMade
              rest.extension.toGrows
            rw [state_of_passEdge? isBehind]
            exact shaped.joins inside isPresent isCall
          · exact inductionHypothesis wellMade endsIn others next isRest

section Limit

variable
  {limit : Nat}
  (follows :
    ∀ (visit : Visit) {search : Search},
      search.EndsIn setting.network rule →
        visit.configuration.EndsIn setting.network rule search.store →
          search.Stays setting.network rule (follow setting endIsFree limit visit search))

include follows in
/-- Along the edges of a state inside a rule all ways back end where they did. -/
theorem Search.EndsIn.followEdges
    {search : Search}
    {visit : Visit}
    (endsIn : search.EndsIn setting.network rule)
    (visited : visit.configuration.EndsIn setting.network rule search.store)
    (inside : (setting.network.state visit.configuration.state).kind ≠ .ruleStop) :
    search.Stays setting.network rule
      (Prediction.followEdges setting endIsFree limit visit search) := by
  have kept : search.Stays setting.network rule (keptFirst setting.network visit search) := by
    unfold keptFirst
    split
    · exact endsIn.stays
    · exact endsIn.add visited fun stopped => absurd stopped inside
  have visitedLater := visited.grows endsIn.wellMade kept.grows
  have opens :=
    @repeats_visitsBehind setting (keptFirst setting.network visit search).found.fullContext
      endIsFree visit (setting.network.state visit.configuration.state) _ kept.endsIn.wellMade
      visitedLater.isIn
      (edgesToFollow setting.network visit.configuration
        (keptFirst setting.network visit search).store)
  have opened : search.Stays setting.network rule (expand setting endIsFree visit search).2 := by
    refine kept.trans ⟨⟨opens.wellMade, ?_, kept.endsIn.returned⟩, opens.extension.toGrows⟩
    exact kept.endsIn.found.grows kept.endsIn.wellMade opens.extension.toGrows
  refine opened.trans (opened.endsIn.foldl
    (fun search visit => follow setting endIsFree limit visit search)
    (fun (visit : Visit) store => visit.configuration.EndsIn setting.network rule store)
    (fun wellMade grows endsIn => endsIn.grows wellMade grows)
    (fun endsIn visited => follows _ endsIn visited) _ ?_)
  exact endsIn_visitsBehind shaped kept.endsIn.wellMade visitedLater inside _
    fun _ member => mem_edges_of_mem_edgesToFollow member

omit shaped in
include follows in
/-- Returning along an entry of the stack all ways back end where they did. -/
theorem Search.EndsIn.followEntry
    {search : Search}
    {visit : Visit}
    {entry : StackEntry}
    (endsIn : search.EndsIn setting.network rule)
    (visited : visit.configuration.EndsIn setting.network rule search.store)
    (present : entry ∈ search.store.entries visit.configuration.stack) :
    search.Stays setting.network rule
      (Prediction.followEntry setting endIsFree true limit visit search entry) := by
  cases entry with
  | mk returnState below =>
      cases returnState with
      | some follow => exact follows _ endsIn (visited.goBack endsIn.wellMade present rfl rfl)
      | none =>
          exact endsIn.add (visited.ofHolds_nil endsIn.wellMade (.bottom present (.inr rfl)))
            fun _ => rfl

end Limit

/-- Following a configuration all ways back end where they did. -/
theorem Search.EndsIn.follow
    (limit : Nat)
    (visit : Visit)
    {search : Search}
    (endsIn : search.EndsIn setting.network rule)
    (visited : visit.configuration.EndsIn setting.network rule search.store) :
    search.Stays setting.network rule (Prediction.follow setting endIsFree limit visit search) := by
  induction limit generalizing visit search with
  | zero => exact endsIn.stays
  | succ limit inductionHypothesis =>
      have marked : search.Stays setting.network rule (search.mark visit) :=
        ⟨endsIn.mark visit, by rw [store_mark]; exact .refl _⟩
      have visitedMarked : visit.configuration.EndsIn setting.network rule (search.mark visit).store := by
        rw [store_mark]
        exact visited
      rw [follow_succ_entries]
      split
      · exact endsIn.stays
      · split
        · rename_i alongEdges
          refine marked.trans (marked.endsIn.followEdges shaped ?_ visitedMarked ?_)
          · exact fun visit _ endsIn visited => inductionHypothesis visit endsIn visited
          · simpa [goesAlongEdges, endsIn.found.fullContext] using alongEdges
        · split
          · rename_i isEmpty
            exact marked.trans (marked.endsIn.add visitedMarked fun _ => isEmpty)
          · rw [endsIn.found.fullContext]
            refine marked.trans (marked.endsIn.foldl
              (Prediction.followEntry setting endIsFree true limit visit)
              (fun entry store =>
                visit.configuration.EndsIn setting.network rule store ∧
                  entry ∈ store.entries visit.configuration.stack)
              ?_ ?_ _ ?_)
            · intro entry store after wellMade grows valid
              refine ⟨valid.1.grows wellMade grows, ?_⟩
              rw [grows.entries valid.1.isIn]
              exact valid.2
            · intro entry search endsIn valid
              exact endsIn.followEntry
                (fun visit _ endsIn visited => inductionHypothesis visit endsIn visited)
                valid.1 valid.2
            · intro entry member
              rw [store_mark]
              exact ⟨visited, member⟩

/-- Following several configurations all ways back end where they did. -/
theorem Search.EndsIn.each
    (begins : Bool)
    (origins : List Configuration)
    {search : Search}
    (endsIn : search.EndsIn setting.network rule)
    (areOrigins : ∀ origin ∈ origins, origin.EndsIn setting.network rule search.store) :
    search.Stays setting.network rule
      (origins.foldl (followFrom setting endIsFree begins) search) := by
  refine endsIn.foldl (followFrom setting endIsFree begins)
    (fun (origin : Configuration) store => origin.EndsIn setting.network rule store)
    (fun wellMade grows endsIn => endsIn.grows wellMade grows) ?_ origins areOrigins
  intro origin search endsIn isOrigin
  have refreshed : (search.refreshed begins).EndsIn setting.network rule :=
    ⟨endsIn.wellMade, endsIn.found, endsIn.returned⟩
  have followed :
      (search.refreshed begins).Stays setting.network rule
        (followFrom setting endIsFree begins search origin) :=
    refreshed.follow shaped _ (.outset begins origin) isOrigin
  exact ⟨followed.endsIn, followed.grows⟩

/-- The ways back of the first configurations end where those of the decision do. -/
theorem endsIn_startSet
    {decisionState : Nat}
    {stack : StackId}
    {store : StackStore}
    (wellMade : store.WellMade)
    (endsIn :
      (Configuration.start decisionState 0 stack).EndsIn setting.network rule store)
    (inside : (setting.network.state decisionState).kind ≠ .ruleStop)
    (several : 1 < (setting.network.state decisionState).edges.length) :
    let begun := startSet setting decisionState stack true store
    begun.2.WellMade ∧ begun.1.EndsIn setting.network rule begun.2 ∧
      begun.1.HasReturned setting.network := by
  have nothing :
      Search.EndsIn setting.network rule ⟨store, ConfigurationSet.empty true, ∅⟩ :=
    ⟨wellMade, .empty _ _ _, by simp [ConfigurationSet.HasReturned, ConfigurationSet.empty]⟩
  rw [startSet_eq]
  have followed :=
    @Search.EndsIn.each setting rule false shaped true
      (outsets setting.network decisionState stack) _ nothing ?_
  · exact ⟨followed.endsIn.wellMade, followed.endsIn.found, followed.endsIn.returned⟩
  · intro origin member
    obtain ⟨⟨edge, place⟩, isEdge, rfl⟩ := List.mem_map.mp member
    have present : edge ∈ (setting.network.state decisionState).edges :=
      List.fst_mem_of_mem_zipIdx isEdge
    refine endsIn.move rfl (shaped.joins inside present ?_)
    cases isFree : edge.isFree with
    | true => exact Edge.not_isCall_of_isFree isFree
    | false =>
        rw [shaped.alone present isFree] at several
        exact absurd several (by simp)

omit shaped in
/-- What is added one by one ends where the rest does. -/
theorem endsIn_addAll
    (added : List Configuration)
    {set : ConfigurationSet}
    {store : StackStore}
    (wellMade : store.WellMade)
    (endsIn : set.EndsIn setting.network rule store)
    (areEndsIn : ∀ configuration ∈ added, configuration.EndsIn setting.network rule store) :
    let all := addAll set store added
    all.2.WellMade ∧ all.1.EndsIn setting.network rule all.2 ∧
      (set.HasReturned setting.network →
        (∀ configuration ∈ added, configuration.HasReturned setting.network) →
          all.1.HasReturned setting.network) := by
  induction added generalizing set store with
  | nil => exact ⟨wellMade, endsIn, fun returned _ => returned⟩
  | cons head tail inductionHypothesis =>
      have isHead := areEndsIn head List.mem_cons_self
      have adds := endsIn.isIn.repeats_add wellMade isHead.isIn
      obtain ⟨wellMadeAll, endsInAll, returnedAll⟩ :=
        inductionHypothesis adds.wellMade (endsIn.add wellMade isHead)
          fun configuration member =>
            (areEndsIn configuration (List.mem_cons_of_mem _ member)).grows wellMade
              adds.extension.toGrows
      refine ⟨wellMadeAll, endsInAll, fun returned areReturned => ?_⟩
      exact returnedAll
        (endsIn.hasReturned_add returned (areReturned head List.mem_cons_self))
        fun configuration member => areReturned configuration (List.mem_cons_of_mem _ member)

/-- What a token moves ends where it did. -/
theorem endsIn_moveOver
    {set : ConfigurationSet}
    {store : StackStore}
    (endsIn : set.EndsIn setting.network rule store)
    (symbol : Int) :
    ∀ configuration ∈ moveOver setting.network set symbol,
      configuration.EndsIn setting.network rule store := by
  intro behind member
  obtain ⟨configuration, isThere, edge, inside, present, consumes, rfl⟩ :=
    mem_moveOver_iff.mp member
  refine (endsIn.each configuration isThere).move rfl (shaped.joins inside present ?_)
  cases edge <;> first | rfl | cases consumes

/-- What is followed behind a token ends where it did, and is followed until it need not return. -/
theorem endsIn_followedSet
    {set : ConfigurationSet}
    {store : StackStore}
    (wellMade : store.WellMade)
    (endsIn : set.EndsIn setting.network rule store)
    (symbol : Int) :
    let followed := followedSet setting set symbol true store
    followed.2.WellMade ∧ followed.1.EndsIn setting.network rule followed.2 ∧
      (followed.1.HasReturned setting.network ∨
        finishedConfigurations setting.network set symbol true = [] ∧
          symbol ≠ endOfInput ∧ followed.1.uniqueAlternative?.isSome = true) := by
  obtain ⟨wellMadeMoved, moved, -⟩ :=
    endsIn_addAll (moveOver setting.network set symbol) wellMade (.empty _ _ _)
      (endsIn_moveOver shaped endsIn symbol)
  intro followed
  simp only [followed, followedSet]
  split
  · rename_i single
    simp only [Bool.and_eq_true, List.isEmpty_iff, Bool.not_eq_true', beq_eq_false_iff_ne]
      at single
    exact ⟨wellMadeMoved, moved, .inr ⟨single.1.1, single.1.2, single.2⟩⟩
  · rw [followAll_eq, moved.fullContext]
    have nothing :
        Search.EndsIn setting.network rule
          ⟨(addAll (ConfigurationSet.empty true) store
            (moveOver setting.network set symbol)).2, ConfigurationSet.empty true, ∅⟩ :=
      ⟨wellMadeMoved, .empty _ _ _,
        by simp [ConfigurationSet.HasReturned, ConfigurationSet.empty]⟩
    have stays :=
      @Search.EndsIn.each setting rule (symbol == endOfInput) shaped false
        (addAll (ConfigurationSet.empty true) store
          (moveOver setting.network set symbol)).1.configurations.toList _ nothing
        fun origin member => moved.each origin (Array.mem_toList_iff.mp member)
    exact ⟨stays.endsIn.wellMade, stays.endsIn.found, .inl stays.endsIn.returned⟩

/-- Where a token leads all ways back end where they did, and none waits unless it is alone. -/
theorem endsIn_reachSet?
    {set reached : ConfigurationSet}
    {store after : StackStore}
    {symbol : Int}
    (wellMade : store.WellMade)
    (endsIn : set.EndsIn setting.network rule store)
    (returned : set.HasReturned setting.network)
    (leads : reachSet? setting set symbol true store = (some reached, after)) :
    after.WellMade ∧ reached.EndsIn setting.network rule after ∧
      (reached.HasReturned setting.network ∨
        symbol ≠ endOfInput ∧ reached.uniqueAlternative?.isSome = true) := by
  obtain ⟨wellMadeFollowed, followed, settled⟩ := endsIn_followedSet shaped wellMade endsIn symbol
  have grows := (repeats_followedSet setting symbol true wellMade endsIn.isIn).extension.toGrows
  have isFinished :
      ∀ configuration ∈ finishedConfigurations setting.network set symbol true,
        configuration ∈ set.configurations := by
    intro configuration member
    simp only [finishedConfigurations, Bool.true_or, if_true] at member
    exact Array.mem_toList_iff.mp (List.mem_filter.mp member).1
  have kept :
      (keptSet setting.network symbol (followedSet setting set symbol true store).1).EndsIn
        setting.network rule (followedSet setting set symbol true store).2 := by
    unfold keptSet
    split
    · exact followed.retain _
    · exact followed
  obtain ⟨wellMadeAll, all, returnedAll⟩ :=
    endsIn_addAll (finishedConfigurations setting.network set symbol true) wellMadeFollowed kept
      fun configuration member =>
        (endsIn.each configuration (isFinished configuration member)).grows wellMade grows
  rw [reachSet?_eq] at leads
  rcases settled with areReturned | ⟨noneFinished, notEnd, unique⟩
  · have keptReturned :
        (keptSet setting.network symbol
          (followedSet setting set symbol true store).1).HasReturned setting.network := by
      unfold keptSet
      split
      · exact fun configuration member =>
          areReturned configuration (ConfigurationSet.mem_retain.mp member).1
      · exact areReturned
    have allReturned :=
      returnedAll keptReturned fun configuration member =>
        returned configuration (isFinished configuration member)
    dsimp only at leads
    split at leads
    · simp only [Prod.mk.injEq, Option.ite_none_left_eq_some, Option.some.injEq] at leads
      obtain ⟨⟨_, rfl⟩, rfl⟩ := leads
      exact ⟨wellMadeAll, all, .inl allReturned⟩
    · simp only [Prod.mk.injEq, Option.ite_none_left_eq_some, Option.some.injEq] at leads
      obtain ⟨⟨_, rfl⟩, rfl⟩ := leads
      exact ⟨wellMadeFollowed, kept, .inl keptReturned⟩
  · have same :
        keptSet setting.network symbol (followedSet setting set symbol true store).1 =
          (followedSet setting set symbol true store).1 := by
      simp [keptSet, notEnd]
    simp only [noneFinished, same, addAll, List.foldl_nil, ite_self, Prod.mk.injEq,
      Option.ite_none_left_eq_some, Option.some.injEq] at leads
    obtain ⟨⟨_, rfl⟩, rfl⟩ := leads
    exact ⟨wellMadeFollowed, followed, .inr ⟨notEnd, unique⟩⟩

end Following

/-- The groups of configurations that are all in one place. -/
theorem insertIntoGroup_of_same
    {configuration : Configuration}
    {alternatives : List Nat} :
    ConfigurationSet.insertIntoGroup configuration
        [((configuration.state, configuration.stack), alternatives)] =
      [((configuration.state, configuration.stack),
        ConfigurationSet.insertAlternative configuration.alternative alternatives)] := by
  simp [ConfigurationSet.insertIntoGroup]

theorem insertAlternative_ne_nil
    (alternative : Nat)
    (alternatives : List Nat) :
    ConfigurationSet.insertAlternative alternative alternatives ≠ [] := by
  cases alternatives with
  | nil => simp [ConfigurationSet.insertAlternative]
  | cons head tail =>
      unfold ConfigurationSet.insertAlternative
      split
      · simp
      · split <;> simp

/-- Where all configurations are in one place, the lowest alternative is that of all groups. -/
theorem isSome_commonLowest?
    {set : ConfigurationSet}
    {state : Nat}
    {stack : StackId}
    (nonempty : set.isEmpty = false)
    (same :
      ∀ configuration ∈ set.configurations,
        configuration.state = state ∧ configuration.stack = stack) :
    (commonLowest? set.alternativesByPlace).isSome = true := by
  have grouped :
      ∀ (configurations : List Configuration) (alternatives : List Nat),
        alternatives ≠ [] →
          (∀ configuration ∈ configurations,
            configuration.state = state ∧ configuration.stack = stack) →
            ∃ all,
              all ≠ [] ∧
                configurations.foldl
                    (fun groups configuration =>
                      ConfigurationSet.insertIntoGroup configuration groups)
                    [((state, stack), alternatives)] =
                  [((state, stack), all)] := by
    intro configurations
    induction configurations with
    | nil => exact fun alternatives notNil _ => ⟨alternatives, notNil, rfl⟩
    | cons head tail inductionHypothesis =>
        intro alternatives notNil same
        obtain ⟨rfl, rfl⟩ := same head List.mem_cons_self
        rw [List.foldl_cons, insertIntoGroup_of_same]
        exact inductionHypothesis _ (insertAlternative_ne_nil _ _)
          fun configuration member => same configuration (List.mem_cons_of_mem _ member)
  have isList : set.configurations.toList ≠ [] := by
    simpa [ConfigurationSet.isEmpty] using nonempty
  obtain ⟨head, tail, isSplit⟩ := List.exists_cons_of_ne_nil isList
  have sameList :
      ∀ configuration ∈ head :: tail,
        configuration.state = state ∧ configuration.stack = stack := by
    rw [← isSplit]
    exact fun configuration member => same configuration (Array.mem_toList_iff.mp member)
  obtain ⟨rfl, rfl⟩ := sameList head List.mem_cons_self
  obtain ⟨all, notNil, isGroup⟩ :=
    grouped tail [head.alternative] (by simp)
      fun configuration member => sameList configuration (List.mem_cons_of_mem _ member)
  have isGroups : set.alternativesByPlace = [all] := by
    rw [ConfigurationSet.alternativesByPlace, ← Array.foldl_toList, isSplit, List.foldl_cons]
    simp only [ConfigurationSet.insertIntoGroup, isGroup, List.map_cons, List.map_nil]
  obtain ⟨lowest, others, rfl⟩ := List.exists_cons_of_ne_nil notNil
  simp [isGroups, commonLowest?]

section Settling

variable
  {setting : Setting}
  {rule : Nat}
  {σ : Type}
  [TokenSource σ]
  (shaped : setting.network.CompilerShaped)

/-- A prediction in context whose ways back all end in the given rule. -/
structure ContextStage.EndsIn
    (network : Network)
    (rule : Nat)
    (stage : ContextStage σ) :
    Prop where
  wellMade : stage.store.WellMade
  endsIn : stage.set.EndsIn network rule stage.store
  returned : stage.set.HasReturned network

/-- Going on to the next token leaves the configurations alone. -/
@[simp] theorem ContextStage.set_advance
    (stage : ContextStage σ)
    (set : ConfigurationSet)
    (store : StackStore) :
    (stage.advance set store).set = set := by
  unfold advance
  split
  rfl

@[simp] theorem ContextStage.store_advance
    (stage : ContextStage σ)
    (set : ConfigurationSet)
    (store : StackStore) :
    (stage.advance set store).store = store := by
  unfold advance
  split
  rfl

/-- A token that leads somewhere leads to some configurations. -/
theorem isEmpty_of_reachSet?
    {fullContext : Bool}
    {symbol : Int}
    {set reached : ConfigurationSet}
    {store after : StackStore}
    (leads : reachSet? setting set symbol fullContext store = (some reached, after)) :
    reached.isEmpty = false := by
  rw [reachSet?_eq] at leads
  simp only [Prod.mk.injEq, Option.ite_none_left_eq_some, Option.some.injEq] at leads
  obtain ⟨⟨isThere, same⟩, -⟩ := leads
  rw [← same]
  simpa using isThere

include shaped in
/-- At the end of the input all that is left is at the end of the rule that parsing began with. -/
theorem isSome_commonLowest?_at_end
    {reached set : ConfigurationSet}
    {store after : StackStore}
    (leads : reachSet? setting set endOfInput true store = (some reached, after))
    (endsIn : reached.EndsIn setting.network rule after)
    (returned : reached.HasReturned setting.network) :
    (commonLowest? reached.alternativesByPlace).isSome = true := by
  have stopped := allStopped_of_reachSet?_endOfInput leads
  simp only [ConfigurationSet.allStopped, Array.all_eq_true_iff_forall_mem,
    decide_eq_true_eq] at stopped
  refine @isSome_commonLowest? reached (setting.network.stopOf rule) StackId.empty
    (isEmpty_of_reachSet? leads) ?_
  intro configuration member
  have isEmpty := returned configuration member (stopped configuration member)
  have holds : after.Holds false configuration.stack [] := by
    rw [isEmpty]
    exact .empty (.inr rfl)
  have inRule := (endsIn.each configuration member).outermost holds
  exact ⟨shaped.onlyStop (stopped configuration member) inRule, isEmpty⟩

include shaped in
/-- A prediction in context that goes on is not at the end of the input. -/
theorem ContextStage.EndsIn.step
    {stage next : ContextStage σ}
    (endsIn : stage.EndsIn setting.network rule)
    (goesOn : stage.step setting = .inr next) :
    stage.symbol ≠ endOfInput ∧ next.EndsIn setting.network rule ∧
      ∃ set store, next = stage.advance set store := by
  unfold ContextStage.step at goesOn
  cases leads : reachSet? setting stage.set stage.symbol true stage.store with
  | mk reached? after =>
      rw [leads] at goesOn
      cases reached? with
      | none =>
          dsimp only at goesOn
          split at goesOn <;> cases goesOn
      | some reached =>
          dsimp only at goesOn
          split at goesOn
          · cases goesOn
          · rename_i undecided
            rw [Option.or_eq_none_iff] at undecided
            obtain rfl := Sum.inr.inj goesOn
            obtain ⟨wellMade, reachedEndsIn, settled⟩ :=
              endsIn_reachSet? shaped endsIn.wellMade endsIn.endsIn endsIn.returned leads
            have returned : reached.HasReturned setting.network :=
              settled.resolve_right (by simp [undecided.1])
            refine ⟨fun atEnd => ?_, ⟨?_, ?_, ?_⟩, reached, after, rfl⟩
            · rw [atEnd] at leads
              have isSome := isSome_commonLowest?_at_end shaped leads reachedEndsIn returned
              rw [undecided.2] at isSome
              cases isSome
            · rwa [store_advance]
            · rwa [set_advance, store_advance]
            · rwa [set_advance]

/-- What a prediction in context settles for is no other kind of prediction. -/
theorem ContextStage.settles_step
    {stage : ContextStage σ}
    {settled : Outcome × StackStore × TokenStream σ}
    (settles : stage.step setting = .inl settled) :
    settled.1 ≠ .needsFullContext := by
  unfold ContextStage.step at settles
  cases leads : reachSet? setting stage.set stage.symbol true stage.store with
  | mk reached? after =>
      rw [leads] at settles
      cases reached? with
      | none =>
          dsimp only at settles
          split at settles <;> (cases settles; simp)
      | some reached =>
          dsimp only at settles
          split at settles
          · cases settles
            simp
          · cases settles

include shaped in
/-- A prediction in context settles before it has looked at more tokens than are visible. -/
theorem settles_simulateTokens
    (limit : Nat)
    {count : Nat}
    {stage : ContextStage σ}
    (endsIn : stage.EndsIn setting.network rule)
    (stands : stage.tokens.StandsAt count stage.index)
    (enough : stage.tokens.visible.length ≤ limit + count) :
    (simulateTokens setting limit stage.set stage.index stage.store stage.tokens).1 ≠
      .needsFullContext := by
  induction limit generalizing count stage with
  | zero =>
      have := stands.lt_length
      omega
  | succ limit inductionHypothesis =>
      rw [ContextStage.simulateTokens_succ]
      cases stepped : stage.step setting with
      | inl settled => exact ContextStage.settles_step stepped
      | inr next =>
          obtain ⟨notEnd, nextEndsIn, set, store, rfl⟩ := endsIn.step shaped stepped
          have isToken : (stage.tokens.token stage.index).isEnd = false := by
            simpa [Token.isEnd, ContextStage.symbol] using notEnd
          have isNext := stands.next isToken
          have sameTokens :=
            (TokenStream.Continues.nextVisible stage.tokens (stage.index + 1)).all
          refine @inductionHypothesis (count + 1) _ nextEndsIn ?_ ?_
          · simpa [ContextStage.advance, notEnd] using isNext
          · simp only [ContextStage.advance, beq_iff_eq, notEnd, if_false, TokenStream.visible,
              sameTokens]
            simp only [TokenStream.visible] at enough
            omega

include shaped in
/--
A prediction in context settles, wherever it is made: the real rule invocations return in the end
to the rule that parsing began with.
-/
theorem settles_predictInContext
    {decisionState start count : Nat}
    {returnStates : List Nat}
    {store : StackStore}
    {tokens : TokenStream σ}
    (wellMade : store.WellMade)
    (inside : (setting.network.state decisionState).kind ≠ .ruleStop)
    (several : 1 < (setting.network.state decisionState).edges.length)
    (outermost :
      (setting.network.state (returnStates.headD decisionState)).rule = some rule)
    (stands : tokens.StandsAt count start) :
    (predictInContext setting decisionState returnStates store tokens start).1 ≠
      .needsFullContext := by
  have pushes := StackStore.pushes_ofReturnStates wellMade returnStates
  have begins :
      (Configuration.start decisionState 0
        ((StackStore.ofReturnStates returnStates).run store).1).EndsIn setting.network rule
          ((StackStore.ofReturnStates returnStates).run store).2 := by
    refine ⟨pushes.valid, ?_⟩
    intro returns holds
    obtain ⟨outer, rfl, holdsEmpty⟩ := pushes.holds_iff.mp holds
    obtain rfl : outer = [] := by simpa using wellMade.holds_empty_iff.mp holdsEmpty
    rw [List.append_nil, List.getLastD_eq_getLast?, List.getLast?_reverse,
      ← List.headD_eq_head?_getD]
    exact outermost
  obtain ⟨wellMadeBegun, begun, returned⟩ :=
    endsIn_startSet shaped pushes.wellMade begins inside several
  have endsIn :
      (ContextStage.first setting decisionState returnStates store tokens start).EndsIn
        setting.network rule :=
    ⟨wellMadeBegun, begun, returned⟩
  refine settles_simulateTokens shaped _ endsIn stands ?_
  change tokens.visible.length ≤ lookaheadBound tokens + count
  rw [lookaheadBound, TokenStream.visibleCount_eq]
  omega

end Settling

end Prediction

end GrammarService
