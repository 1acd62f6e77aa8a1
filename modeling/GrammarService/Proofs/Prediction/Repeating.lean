import GrammarService.Proofs.Prediction.Coverage

namespace GrammarService

/-!
# Predictions leave nothing to be learned

What a prediction makes of stacks it remembers: a stack that was made is found again, and so is
what two stacks were merged to. A prediction that is repeated, at once or at any later time, finds
all that it made the first time, comes to the same result, and leaves the store as it is.
-/

namespace StackStore

variable {store after : StackStore} {stack first second : StackId} {α β : Type}

/-- All that a store has and remembers is in another one too. -/
structure Extends (store after : StackStore) : Prop extends Grows store after where
  interned :
    ∀ {entries : List StackEntry} {stack : StackId},
      store.interned[entries]? = some stack → after.interned[entries]? = some stack
  merged :
    ∀ {key : StackId × StackId × Bool} {stack : StackId},
      store.merged[key]? = some stack → after.merged[key]? = some stack

namespace Extends

theorem refl (store : StackStore) : store.Extends store where
  toGrows := .refl store
  interned := id
  merged := id

theorem trans
    {last : StackStore}
    (earlier : store.Extends after)
    (later : after.Extends last) :
    store.Extends last where
  toGrows := earlier.toGrows.trans later.toGrows
  interned known := later.interned (earlier.interned known)
  merged known := later.merged (earlier.merged known)

end Extends

/-- A stack is made once. -/
theorem run_intern
    (store : StackStore)
    (entries : List StackEntry) :
    (intern entries).run store =
      if entries.isEmpty || decide (entries = [StackEntry.bottom]) then
        (StackId.empty, store)
      else
        match store.interned[entries]? with
        | some stack => (stack, store)
        | none =>
            (store.nodes.size,
              { store with
                nodes := store.nodes.push entries
                interned := store.interned.insert entries store.nodes.size }) := by
  split
  · rename_i isEmpty
    simp only [intern, isEmpty, if_true]
    rfl
  · rename_i isEmpty
    cases known : store.interned[entries]? with
    | some stack =>
        simp [intern, isEmpty, known]
        rfl
    | none =>
        simp [intern, isEmpty, known]
        rfl

/-- An operation only extends a store. -/
def Keeps (operation : StateM StackStore α) : Prop :=
  ∀ store : StackStore, store.Extends (operation.run store).2

namespace Keeps

theorem pure (value : α) : Keeps (Pure.pure value) :=
  fun store => .refl store

theorem get : Keeps (MonadState.get : StateM StackStore StackStore) :=
  fun store => .refl store

theorem bind
    {operation : StateM StackStore α}
    {next : α → StateM StackStore β}
    (first : Keeps operation)
    (second : ∀ value, Keeps (next value)) :
    Keeps (operation >>= next) :=
  fun store => (first store).trans (second _ _)

/-- Making a stack extends the store. -/
theorem intern (entries : List StackEntry) : Keeps (StackStore.intern entries) := by
  intro store
  rw [run_intern]
  split
  · exact .refl store
  · cases known : store.interned[entries]? with
    | some stack => exact .refl store
    | none =>
        refine ⟨⟨?_⟩, ?_, id⟩
        · intro stack kept present
          obtain ⟨inBounds, rfl⟩ := Array.getElem?_eq_some_iff.mp present
          simp [Array.getElem?_push_lt inBounds]
        · intro others stack present
          rw [Std.HashMap.getElem?_insert]
          split
          · rename_i same
            rw [← eq_of_beq same, known] at present
            cases present
          · exact present

section MergeBelow

variable
  {mergeBelow : StackId → StackId → StateM StackStore StackId}
  (below : ∀ first second, Keeps (mergeBelow first second))

include below

/-- Merging entries extends the store if merging what is below them does. -/
theorem mergeEntries (firsts seconds : List StackEntry) :
    Keeps (StackStore.mergeEntries mergeBelow firsts seconds) := by
  induction firsts, seconds using mergeEntries.induct mergeBelow with
  | case1 seconds =>
      rw [StackStore.mergeEntries]
      exact .pure _
  | case2 firsts notNil =>
      cases firsts with
      | nil => exact absurd rfl notNil
      | cons entry rest =>
          rw [StackStore.mergeEntries]
          · exact .pure _
          · simp
  | case3 entry rest entry' rest' same sameBelow inductionHypothesis =>
      rw [StackStore.mergeEntries, if_pos same, if_pos sameBelow]
      exact .bind (.pure _) fun _ => .bind inductionHypothesis fun _ => .pure _
  | case4 entry rest entry' rest' same different inductionHypothesis =>
      rw [StackStore.mergeEntries, if_pos same, if_neg different]
      exact .bind (below _ _) fun _ => .bind inductionHypothesis fun _ => .pure _
  | case5 entry rest entry' rest' different before inductionHypothesis =>
      rw [StackStore.mergeEntries, if_neg different, if_pos before]
      exact .bind inductionHypothesis fun _ => .pure _
  | case6 entry rest entry' rest' different notBefore inductionHypothesis =>
      rw [StackStore.mergeEntries, if_neg different, if_neg notBefore]
      exact .bind inductionHypothesis fun _ => .pure _

/-- Merging single ways extends the store if merging what is below them does. -/
theorem mergeSingles
    (emptyIsAny : Bool)
    (first second : StackId) :
    Keeps (StackStore.mergeSingles mergeBelow emptyIsAny first second) := by
  refine .bind .get fun store => ?_
  split
  · split
    · exact .pure _
    · exact .intern _
  · split
    · split
      · exact .bind (below _ _) fun _ => .intern _
      · split
        · exact .intern _
        · exact .intern _
    · exact .pure _

/-- Merging stacks that were not merged before extends the store if merging below them does. -/
theorem mergeAnew
    (emptyIsAny : Bool)
    (first second : StackId) :
    Keeps (StackStore.mergeAnew mergeBelow emptyIsAny first second) := by
  refine .bind .get fun store => ?_
  split
  · exact mergeSingles below emptyIsAny first second
  · split
    · exact .pure _
    · exact .bind (mergeEntries below _ _) fun _ => .intern _

end MergeBelow

end Keeps

/-- What two stacks are remembered by once they were merged. -/
def mergeKey
    (emptyIsAny : Bool)
    (first second : StackId) :
    StackId × StackId × Bool :=
  (min first second, max first second, emptyIsAny)

/-- Two different stacks are merged once. -/
theorem run_mergeWithin_succ
    (emptyIsAny : Bool)
    (depth : Nat)
    (different : first ≠ second) :
    (mergeWithin emptyIsAny (depth + 1) first second).run store =
      match store.merged[mergeKey emptyIsAny first second]? with
      | some stack => (stack, store)
      | none =>
          let made :=
            (mergeAnew (mergeWithin emptyIsAny depth) emptyIsAny first second).run store
          (made.1,
            { made.2 with
              merged := made.2.merged.insert (mergeKey emptyIsAny first second) made.1 }) := by
  cases known : store.merged[mergeKey emptyIsAny first second]? with
  | some stack =>
      simp only [mergeKey] at known
      simp [mergeWithin, different, known]
      rfl
  | none =>
      simp only [mergeKey] at known
      simp [mergeWithin, different, known, mergeKey]
      rfl

/-- Merging stacks extends the store. -/
theorem Keeps.mergeWithin
    (emptyIsAny : Bool)
    (depth : Nat)
    (first second : StackId) :
    Keeps (StackStore.mergeWithin emptyIsAny depth first second) := by
  induction depth generalizing first second with
  | zero => exact .pure first
  | succ depth inductionHypothesis =>
      intro store
      by_cases same : first = second
      · have isRun :
            (StackStore.mergeWithin emptyIsAny (depth + 1) first second).run store =
              (first, store) := by
          simp [StackStore.mergeWithin, same]
          rfl
        rw [isRun]
        exact .refl store
      · rw [run_mergeWithin_succ emptyIsAny depth same]
        cases known : store.merged[mergeKey emptyIsAny first second]? with
        | some stack => exact .refl store
        | none =>
            have anew := Keeps.mergeAnew inductionHypothesis emptyIsAny first second store
            refine ⟨⟨anew.kept⟩, anew.interned, ?_⟩
            intro key stack present
            rw [Std.HashMap.getElem?_insert]
            split
            · rename_i isKey
              rw [← eq_of_beq isKey, known] at present
              cases present
            · exact anew.merged present

/--
An operation on a store only extends it, with a valid result, and when it is run again at any later
time it gives the same and leaves the store as it is.
-/
structure Repeats
    (valid : StackStore → α → Prop)
    (operation : StackStore → α × StackStore)
    (store : StackStore) :
    Prop where
  wellMade : (operation store).2.WellMade
  extension : store.Extends (operation store).2
  valid : valid (operation store).2 (operation store).1
  again :
    ∀ {later : StackStore},
      (operation store).2.Extends later → operation later = ((operation store).1, later)

namespace Repeats

variable {valid : StackStore → α → Prop} {validNext : StackStore → β → Prop}

theorem pure
    {value : α}
    (wellMade : store.WellMade)
    (isValid : valid store value) :
    Repeats valid (fun store => (value, store)) store where
  wellMade := wellMade
  extension := .refl store
  valid := isValid
  again _ := rfl

/-- Operations that can be repeated can be repeated one after the other. -/
theorem bind
    {operation : StackStore → α × StackStore}
    (first : Repeats valid operation store)
    (next : α → StackStore → β × StackStore)
    (second : Repeats validNext (next (operation store).1) (operation store).2) :
    Repeats validNext (fun store => next (operation store).1 (operation store).2) store where
  wellMade := second.wellMade
  extension := first.extension.trans second.extension
  valid := second.valid
  again isLater := by
    rw [first.again (second.extension.trans isLater)]
    exact second.again isLater

/-- A choice that does not look at the store can be repeated if both ways can. -/
theorem ite
    {condition : Prop}
    [Decidable condition]
    {first second : StackStore → α × StackStore}
    (holding : condition → Repeats valid first store)
    (failing : ¬ condition → Repeats valid second store) :
    Repeats valid (fun store => if condition then first store else second store) store := by
  by_cases holds : condition
  · simp only [holds, if_true]
    exact holding holds
  · simp only [holds, if_false]
    exact failing holds

/-- The result can be turned into another one. -/
theorem map
    {operation : StackStore → α × StackStore}
    (repeats : Repeats valid operation store)
    (turn : α → β)
    (isValid : validNext (operation store).2 (turn (operation store).1)) :
    Repeats validNext (fun store => (turn (operation store).1, (operation store).2)) store where
  wellMade := repeats.wellMade
  extension := repeats.extension
  valid := isValid
  again isLater := by rw [repeats.again isLater]

end Repeats

/-- A stack is in a store. -/
def IsIn
    (store : StackStore)
    (stack : StackId) :
    Prop :=
  stack < store.nodes.size

/-- A stack that was pushed is interned. -/
theorem interned_push
    (store : StackStore)
    (stack : StackId)
    (follow : Nat) :
    ((push stack follow).run store).2.interned[[(⟨some follow, stack⟩ : StackEntry)]]? =
      some ((push stack follow).run store).1 := by
  have isRun :=
    (run_intern store [⟨some follow, stack⟩]).trans (if_neg (by simp [StackEntry.bottom]))
  simp only [push, isRun]
  cases known : store.interned[[(⟨some follow, stack⟩ : StackEntry)]]? with
  | some stack => exact known
  | none => simp

/-- Pushing a return state can be repeated. -/
theorem repeats_push
    (wellMade : store.WellMade)
    (valid : store.IsIn stack)
    (follow : Nat) :
    Repeats IsIn (push stack follow).run store := by
  have interns := interns_push wellMade valid follow
  refine ⟨interns.wellMade, Keeps.intern _ store, interns.valid, ?_⟩
  intro later extension
  have isRun :=
    (run_intern later [⟨some follow, stack⟩]).trans (if_neg (by simp [StackEntry.bottom]))
  exact isRun.trans (by rw [extension.interned (interned_push store stack follow)])

/-- Merging two stacks can be repeated. -/
theorem repeats_merge
    (wellMade : store.WellMade)
    (firstValid : store.IsIn first)
    (secondValid : store.IsIn second)
    (emptyIsAny : Bool) :
    Repeats IsIn (merge first second emptyIsAny).run store := by
  have merges := @merges_merge store emptyIsAny first second wellMade firstValid secondValid
  refine ⟨merges.wellMade, Keeps.mergeWithin _ _ _ _ store, merges.valid, ?_⟩
  intro later extension
  by_cases same : first = second
  · have isRun :
        ∀ store : StackStore, (merge first second emptyIsAny).run store = (first, store) := by
      intro store
      simp [merge, mergeWithin, same]
      rfl
    rw [isRun, isRun]
  · have isRun := fun store : StackStore =>
      @run_mergeWithin_succ store first second emptyIsAny (min first second) same
    simp only [merge] at extension ⊢
    have isKnown :
        ((mergeWithin emptyIsAny (min first second + 1) first second).run store).2.merged[
            mergeKey emptyIsAny first second]? =
          some ((mergeWithin emptyIsAny (min first second + 1) first second).run store).1 := by
      rw [isRun]
      cases known : store.merged[mergeKey emptyIsAny first second]? with
      | some stack => exact known
      | none => simp
    rw [isRun later, extension.merged isKnown]

/-- In a larger store stacks that were there end as they did. -/
theorem Grows.reachesBottom
    (grows : store.Grows after)
    (valid : store.IsIn stack) :
    after.reachesBottom stack = store.reachesBottom stack := by
  simp only [StackStore.reachesBottom, grows.entries valid]

end StackStore

namespace ConfigurationSet

variable {set : ConfigurationSet} {store after : StackStore}

/-- The stacks of all configurations are in a store. -/
def IsIn
    (store : StackStore)
    (set : ConfigurationSet) :
    Prop :=
  ∀ configuration ∈ set.configurations, store.IsIn configuration.stack

theorem IsIn.empty
    (store : StackStore)
    (fullContext : Bool) :
    (ConfigurationSet.empty fullContext).IsIn store := by
  simp [IsIn, ConfigurationSet.empty]

theorem IsIn.grows
    (isIn : set.IsIn store)
    (grows : store.Grows after) :
    set.IsIn after :=
  fun configuration member => grows.valid (isIn configuration member)

theorem IsIn.retain
    (isIn : set.IsIn store)
    (keeps : Configuration → Bool) :
    (set.retain keeps).IsIn store :=
  fun configuration member => isIn configuration (mem_retain.mp member).1

/-- Adding a configuration can be repeated. -/
theorem IsIn.repeats_add
    {configuration : Configuration}
    (isIn : set.IsIn store)
    (wellMade : store.WellMade)
    (valid : store.IsIn configuration.stack) :
    StackStore.Repeats IsIn (set.add configuration).run store := by
  cases known : set.index[indexKey configuration]? with
  | none =>
      have isRun :=
        funext fun store => @add_of_new set configuration store known
      rw [isRun]
      refine .pure wellMade ?_
      intro present member
      rcases Array.mem_push.mp member with isOld | rfl
      · exact isIn present isOld
      · exact valid
  | some position =>
      have isRun :=
        funext fun store => @add_of_known set configuration store position known
      rw [isRun]
      have twinValid :
          store.IsIn (set.configurations.getD position configuration).stack := by
        rw [Array.getD_eq_getD_getElem?]
        cases present : set.configurations[position]? with
        | none => exact valid
        | some twin => exact isIn twin (Array.mem_of_getElem? present)
      have merges := StackStore.repeats_merge wellMade twinValid valid (!set.fullContext)
      refine merges.map
        (fun stack =>
          { set with
            hasConditions := set.hasConditionsWith configuration
            configurations :=
              set.configurations.modify position (·.joinedWith configuration stack) })
        ?_
      intro present member
      obtain ⟨place, isPlace⟩ := Array.getElem?_of_mem member
      rw [Array.getElem?_modify] at isPlace
      split at isPlace
      · obtain ⟨twin, _, rfl⟩ := Option.map_eq_some_iff.mp isPlace
        exact merges.valid
      · exact merges.extension.valid (isIn present (Array.mem_of_getElem? isPlace))

end ConfigurationSet

namespace Prediction

section Operations

variable
  {setting : Setting}
  {fullContext endIsFree : Bool}
  {visit : Visit}
  {state : Network.State}
  {store : StackStore}

/-- Adding several configurations can be repeated. -/
theorem repeats_addAll
    (added : List Configuration)
    {set : ConfigurationSet}
    (isIn : set.IsIn store)
    (wellMade : store.WellMade)
    (valid : ∀ configuration ∈ added, store.IsIn configuration.stack) :
    StackStore.Repeats ConfigurationSet.IsIn (fun store => addAll set store added) store := by
  induction added generalizing set store with
  | nil => exact .pure wellMade isIn
  | cons head tail inductionHypothesis =>
      have first := isIn.repeats_add wellMade (valid head List.mem_cons_self)
      refine first.bind (fun set store => addAll set store tail)
        (inductionHypothesis first.valid first.wellMade ?_)
      intro configuration member
      exact first.extension.valid (valid configuration (List.mem_cons_of_mem _ member))

/-- The stacks of all visits are in a store. -/
def VisitsAreIn
    (store : StackStore)
    (visits : List Visit) :
    Prop :=
  ∀ visit ∈ visits, store.IsIn visit.configuration.stack

/-- Behind an edge the stack is the one before it. -/
theorem stack_visitBehind
    (setting : Setting)
    (visit : Visit)
    (state : Network.State)
    (edge : Edge)
    (collects : Bool)
    (behind : Configuration) :
    (visitBehind setting visit state edge collects behind).configuration.stack =
      behind.stack := by
  unfold visitBehind
  split <;> rfl

/-- An edge without a call leaves the stack alone. -/
theorem stack_of_passEdge?
    {collects inContext : Bool}
    {configuration behind : Configuration}
    {edge : Edge}
    (isBehind :
      passEdge? setting fullContext endIsFree collects inContext configuration edge =
        some behind) :
    behind.stack = configuration.stack := by
  rw [eq_of_passEdge? isBehind]

/-- Opening the edges of a configuration can be repeated. -/
theorem repeats_visitsBehind
    (wellMade : store.WellMade)
    (valid : store.IsIn visit.configuration.stack)
    (edges : List Edge) :
    StackStore.Repeats VisitsAreIn
      (visitsBehind setting fullContext endIsFree visit state edges).run store := by
  induction edges generalizing store with
  | nil => exact .pure wellMade (by simp [VisitsAreIn])
  | cons edge edges inductionHypothesis =>
      cases isCall : edge.isCall with
      | true =>
          cases edge with
          | call target rule precedence follow =>
              have pushes := StackStore.repeats_push wellMade valid follow
              have rest :=
                inductionHypothesis pushes.wellMade (pushes.extension.valid valid)
              let entering (stack : StackId) : Visit :=
                visitBehind setting visit state (.call target rule precedence follow)
                  (collectsBehind visit (.call target rule precedence follow))
                  { visit.configuration with state := target, stack := stack }
              refine pushes.bind
                (fun stack store =>
                  let rest :=
                    (visitsBehind setting fullContext endIsFree visit state edges).run store
                  (entering stack :: rest.1, rest.2))
                (rest.map (entering _ :: ·) ?_)
              intro next member
              rcases List.mem_cons.mp member with rfl | member
              · exact (stack_visitBehind _ _ _ _ _ _).symm ▸ rest.extension.valid pushes.valid
              · exact rest.valid next member
          | _ => cases isCall
      | false =>
          have isRun :=
            funext fun store =>
              @visitsBehind_other setting fullContext endIsFree visit state edges store edge isCall
          rw [isRun]
          have rest := inductionHypothesis wellMade valid
          refine rest.map
            (fun visits =>
              ((passEdge? setting fullContext endIsFree (collectsBehind visit edge)
                  (visit.depth == 0) visit.configuration edge).map
                (visitBehind setting visit state edge (collectsBehind visit edge))).toList ++
                visits)
            ?_
          intro next member
          rcases List.mem_append.mp member with isHere | isRest
          · rw [Option.mem_toList, Option.map_eq_some_iff] at isHere
            obtain ⟨behind, isBehind, rfl⟩ := isHere
            rw [stack_visitBehind, stack_of_passEdge? isBehind]
            exact rest.extension.valid valid
          · exact rest.valid next isRest

/-- Whether another round can make a difference does not change when the store grows. -/
theorem roundIsRedundant_grows
    {after : StackStore}
    {configuration : Configuration}
    (network : Network)
    (grows : store.Grows after)
    (valid : store.IsIn configuration.stack) :
    roundIsRedundant network after configuration =
      roundIsRedundant network store configuration := by
  simp only [roundIsRedundant, grows.reachesBottom valid, grows.entries valid]

/-- A search goes on in a store, and what it has found is there. -/
structure Search.Holds (search : Search) : Prop where
  wellMade : search.store.WellMade
  isIn : search.found.IsIn search.store

/--
A part of a search only extends the store, and when it is done again at any later time it finds the
same and leaves the store as it is.
-/
structure Search.Repeats
    (operation : Search → Search)
    (search : Search) :
    Prop where
  holds : (operation search).Holds
  extension : search.store.Extends (operation search).store
  again :
    ∀ {later : StackStore},
      (operation search).store.Extends later →
        operation { search with store := later } = { operation search with store := later }

namespace Search.Repeats

variable {search : Search}

theorem refl (holds : search.Holds) : Search.Repeats id search where
  holds := holds
  extension := .refl _
  again _ := rfl

/-- What comes to the same in every larger store can be repeated if the other can. -/
theorem congr
    {operation other : Search → Search}
    (repeats : Search.Repeats other search)
    (agrees :
      ∀ store : StackStore,
        search.store.Extends store →
          operation { search with store := store } = other { search with store := store }) :
    Search.Repeats operation search := by
  have atFirst : operation search = other search := agrees search.store (.refl _)
  refine ⟨atFirst ▸ repeats.holds, atFirst ▸ repeats.extension, ?_⟩
  intro later isLater
  rw [atFirst] at isLater ⊢
  rw [agrees later (repeats.extension.trans isLater)]
  exact repeats.again isLater

/-- Parts of a search that can be repeated can be repeated one after the other. -/
theorem comp
    {operation next : Search → Search}
    (first : Search.Repeats operation search)
    (second : Search.Repeats next (operation search)) :
    Search.Repeats (fun search => next (operation search)) search where
  holds := second.holds
  extension := first.extension.trans second.extension
  again isLater := by
    rw [first.again (second.extension.trans isLater)]
    exact second.again isLater

/-- What can be repeated for each of some items can be repeated for all of them in turn. -/
theorem foldl
    {ι : Type}
    (operation : Search → ι → Search)
    (valid : ι → StackStore → Prop)
    (grows :
      ∀ {item : ι} {store after : StackStore},
        store.Extends after → valid item store → valid item after)
    (each :
      ∀ {item : ι} {search : Search},
        search.Holds → valid item search.store →
          Search.Repeats (fun search => operation search item) search)
    (items : List ι)
    (holds : search.Holds)
    (areValid : ∀ item ∈ items, valid item search.store) :
    Search.Repeats (fun search => items.foldl operation search) search := by
  induction items generalizing search with
  | nil => exact .refl holds
  | cons head tail inductionHypothesis =>
      have first := each holds (areValid head List.mem_cons_self)
      exact first.comp (inductionHypothesis first.holds fun item member =>
        grows first.extension (areValid item (List.mem_cons_of_mem _ member)))

end Search.Repeats

variable {search : Search}

/-- Keeping a configuration can be repeated. -/
theorem Search.Holds.repeats_add
    {configuration : Configuration}
    (holds : search.Holds)
    (valid : search.store.IsIn configuration.stack) :
    Search.Repeats (fun search => search.add configuration) search := by
  have adds := holds.isIn.repeats_add holds.wellMade valid
  refine ⟨⟨adds.wellMade, adds.valid⟩, adds.extension, ?_⟩
  intro later isLater
  simp only [Search.add, adds.again isLater]
  rfl

/-- Keeping a configuration if its state needs a token can be repeated. -/
theorem Search.Holds.repeats_keptFirst
    (holds : search.Holds)
    (network : Network)
    (valid : search.store.IsIn visit.configuration.stack) :
    Search.Repeats (keptFirst network visit) search := by
  unfold keptFirst
  split
  · exact .refl holds
  · exact holds.repeats_add valid

/-- Opening a configuration can be repeated. -/
structure Expands
    (setting : Setting)
    (endIsFree : Bool)
    (visit : Visit)
    (search : Search) :
    Prop where
  holds : (expand setting endIsFree visit search).2.Holds
  extension : search.store.Extends (expand setting endIsFree visit search).2.store
  areIn :
    VisitsAreIn (expand setting endIsFree visit search).2.store
      (expand setting endIsFree visit search).1
  again :
    ∀ {later : StackStore},
      (expand setting endIsFree visit search).2.store.Extends later →
        expand setting endIsFree visit { search with store := later } =
          ((expand setting endIsFree visit search).1,
            { (expand setting endIsFree visit search).2 with store := later })

/-- The edges along which to follow a configuration. -/
def edgesToFollow
    (network : Network)
    (configuration : Configuration)
    (store : StackStore) :
    List Edge :=
  if roundIsRedundant network store configuration then
    (network.state configuration.state).edges.drop 1
  else
    (network.state configuration.state).edges

/-- Opening a configuration keeps it, if it needs a token, and then opens its edges. -/
theorem expand_edgesToFollow
    (setting : Setting)
    (endIsFree : Bool)
    (visit : Visit)
    (search : Search) :
    expand setting endIsFree visit search =
      let kept := keptFirst setting.network visit search
      let opened :=
        (visitsBehind setting kept.found.fullContext endIsFree visit
          (setting.network.state visit.configuration.state)
          (edgesToFollow setting.network visit.configuration kept.store)).run kept.store
      (opened.1, { kept with store := opened.2 }) :=
  rfl

theorem Search.Holds.expands
    (holds : search.Holds)
    (setting : Setting)
    (endIsFree : Bool)
    (valid : search.store.IsIn visit.configuration.stack) :
    Expands setting endIsFree visit search := by
  have keeps := holds.repeats_keptFirst setting.network valid
  have validKept := keeps.extension.valid valid
  have opens :=
    @repeats_visitsBehind setting
      (keptFirst setting.network visit search).found.fullContext endIsFree visit
      (setting.network.state visit.configuration.state)
      (keptFirst setting.network visit search).store keeps.holds.wellMade validKept
      (edgesToFollow setting.network visit.configuration
        (keptFirst setting.network visit search).store)
  refine ⟨⟨opens.wellMade, ?_⟩, keeps.extension.trans opens.extension, opens.valid, ?_⟩
  · exact keeps.holds.isIn.grows opens.extension.toGrows
  · intro later isLater
    have afterKeeping := opens.extension.trans isLater
    rw [expand_edgesToFollow, keeps.again afterKeeping]
    have sameEdges :
        edgesToFollow setting.network visit.configuration later =
          edgesToFollow setting.network visit.configuration
            (keptFirst setting.network visit search).store := by
      simp only [edgesToFollow,
        roundIsRedundant_grows setting.network afterKeeping.toGrows validKept]
    dsimp only
    rw [sameEdges, opens.again isLater]
    rfl

/-- Follow the edges of a configuration, for ways of at most `limit` steps behind them. -/
def followEdges
    (setting : Setting)
    (endIsFree : Bool)
    (limit : Nat)
    (visit : Visit)
    (search : Search) :
    Search :=
  let opened := expand setting endIsFree visit search
  opened.1.foldl (fun search visit => follow setting endIsFree limit visit search) opened.2

/-- Follow what an entry of a configuration's stack leads to at the end of a rule. -/
def followEntry
    (setting : Setting)
    (endIsFree fullContext : Bool)
    (limit : Nat)
    (visit : Visit)
    (search : Search)
    (entry : StackEntry) :
    Search :=
  match entry.returnState with
  | some returnState =>
      follow setting endIsFree limit
        { configuration :=
            { visit.configuration with
              state := returnState
              stack := entry.below
              filterSuppressed := false }
          collects := visit.collects
          depth := visit.depth - 1
          checked := false }
        search
  | none =>
      if fullContext then
        search.add { visit.configuration with stack := StackId.empty }
      else
        followEdges setting endIsFree limit visit search

/-- Marking a visit leaves the store as it is. -/
@[simp] theorem store_mark
    (search : Search)
    (visit : Visit) :
    (search.mark visit).store = search.store := by
  unfold Search.mark
  split <;> rfl

/-- Marking a visit leaves what was found as it is. -/
@[simp] theorem found_mark
    (search : Search)
    (visit : Visit) :
    (search.mark visit).found = search.found := by
  unfold Search.mark
  split <;> rfl

/-- Following a visit is to give it up, to follow the edges, to keep it, or to return. -/
theorem follow_succ_entries
    (setting : Setting)
    (endIsFree : Bool)
    (limit : Nat)
    (visit : Visit)
    (search : Search) :
    follow setting endIsFree (limit + 1) visit search =
      if search.isKnown visit then
        search
      else if goesAlongEdges setting.network search.found.fullContext visit.configuration then
        followEdges setting endIsFree limit visit (search.mark visit)
      else if visit.configuration.stack = StackId.empty then
        (search.mark visit).add visit.configuration
      else
        (search.store.entries visit.configuration.stack).foldl
          (followEntry setting endIsFree search.found.fullContext limit visit)
          (search.mark visit) := by
  rw [follow]
  by_cases isKnown : search.isKnown visit = true
  · rw [if_pos isKnown]
    exact if_pos isKnown
  · rw [if_neg isKnown]
    refine (if_neg isKnown).trans ?_
    conv_rhs => rw [← found_mark search visit, ← store_mark search visit]
    rfl

/-- Marking a visit can be repeated. -/
theorem Search.Holds.repeats_mark
    (holds : search.Holds)
    (visit : Visit) :
    Search.Repeats (fun search => search.mark visit) search := by
  cases isChecked : visit.checked with
  | false =>
      refine (Search.Repeats.refl holds).congr fun store larger => ?_
      simp [Search.mark, isChecked]
  | true =>
      refine ⟨⟨?_, ?_⟩, ?_, ?_⟩
      all_goals simp only [Search.mark, isChecked, if_true]
      · exact holds.wellMade
      · exact holds.isIn
      · exact .refl _
      · exact fun _ => trivial

section Limit

variable
  {limit : Nat}
  (follows :
    ∀ (visit : Visit) {search : Search},
      search.Holds → search.store.IsIn visit.configuration.stack →
        Search.Repeats (follow setting endIsFree limit visit) search)

include follows

/-- Following the edges of a configuration can be repeated if following what is behind can. -/
theorem Search.Holds.repeats_followEdges
    (holds : search.Holds)
    (valid : search.store.IsIn visit.configuration.stack) :
    Search.Repeats (followEdges setting endIsFree limit visit) search := by
  have expands := holds.expands setting endIsFree valid
  have folds :=
    Search.Repeats.foldl
      (fun search visit => follow setting endIsFree limit visit search)
      (fun (visit : Visit) (store : StackStore) => store.IsIn visit.configuration.stack)
      (fun extension valid => extension.valid valid) (fun holds valid => follows _ holds valid)
      (expand setting endIsFree visit search).1 expands.holds expands.areIn
  refine ⟨folds.holds, expands.extension.trans folds.extension, ?_⟩
  intro later isLater
  simp only [followEdges]
  rw [expands.again (folds.extension.trans isLater)]
  exact folds.again isLater

/-- Returning along an entry can be repeated if following what is behind can. -/
theorem Search.Holds.repeats_followEntry
    {entry : StackEntry}
    (holds : search.Holds)
    (valid : search.store.IsIn visit.configuration.stack)
    (validBelow : search.store.IsIn entry.below) :
    Search.Repeats
      (fun search => followEntry setting endIsFree fullContext limit visit search entry)
      search := by
  cases isReturn : entry.returnState with
  | some returnState =>
      simp only [followEntry, isReturn]
      exact follows _ holds validBelow
  | none =>
      cases fullContext with
      | true =>
          simp only [followEntry, isReturn, if_true]
          exact @Search.Holds.repeats_add search
            { visit.configuration with stack := StackId.empty } holds holds.wellMade.empty_valid
      | false =>
          simp only [followEntry, isReturn, Bool.false_eq_true, if_false]
          exact holds.repeats_followEdges follows valid

/-- Following a configuration can be repeated if following what is behind can. -/
theorem Search.Holds.repeats_follow_succ
    (holds : search.Holds)
    (valid : search.store.IsIn visit.configuration.stack) :
    Search.Repeats (follow setting endIsFree (limit + 1) visit) search := by
  have marks := holds.repeats_mark visit
  have validMarked : (search.mark visit).store.IsIn visit.configuration.stack := by
    rw [store_mark]
    exact valid
  have isRun := fun store : StackStore =>
    follow_succ_entries setting endIsFree limit visit { search with store := store }
  by_cases isKnown : search.isKnown visit = true
  · refine (Search.Repeats.refl holds).congr fun store larger => ?_
    exact (isRun store).trans (if_pos isKnown)
  · by_cases alongEdges :
        goesAlongEdges setting.network search.found.fullContext visit.configuration = true
    · refine (marks.comp
        (marks.holds.repeats_followEdges follows validMarked)).congr fun store larger => ?_
      exact (isRun store).trans ((if_neg isKnown).trans (if_pos alongEdges))
    · by_cases isEmpty : visit.configuration.stack = StackId.empty
      · refine (marks.comp (marks.holds.repeats_add validMarked)).congr fun store larger => ?_
        exact (isRun store).trans
          ((if_neg isKnown).trans ((if_neg alongEdges).trans (if_pos isEmpty)))
      · have folds :=
          Search.Repeats.foldl
            (followEntry setting endIsFree search.found.fullContext limit visit)
            (fun (entry : StackEntry) (store : StackStore) =>
              store.IsIn visit.configuration.stack ∧ store.IsIn entry.below)
            (fun extension valid => ⟨extension.valid valid.1, extension.valid valid.2⟩)
            (fun holds valid =>
              holds.repeats_followEntry follows valid.1 valid.2)
            (search.store.entries visit.configuration.stack) marks.holds
            (fun entry member => by
              rw [store_mark]
              exact ⟨valid, holds.wellMade.below_valid valid member⟩)
        refine (marks.comp folds).congr fun store larger => ?_
        refine (isRun store).trans
          ((if_neg isKnown).trans ((if_neg alongEdges).trans ((if_neg isEmpty).trans ?_)))
        rw [larger.entries valid]

end Limit

/-- Following a configuration can be repeated. -/
theorem Search.Holds.repeats_follow
    (setting : Setting)
    (endIsFree : Bool)
    (limit : Nat)
    (visit : Visit)
    (holds : search.Holds)
    (valid : search.store.IsIn visit.configuration.stack) :
    Search.Repeats (follow setting endIsFree limit visit) search := by
  induction limit generalizing visit search with
  | zero => exact .refl holds
  | succ limit inductionHypothesis =>
      exact holds.repeats_follow_succ
        (fun visit _ holds valid => inductionHypothesis visit holds valid) valid

/-- What a search that can be repeated finds can be found again. -/
theorem Search.Repeats.found
    {operation : Search → Search}
    (repeats : Search.Repeats operation search) :
    StackStore.Repeats ConfigurationSet.IsIn
      (fun store =>
        let result := operation { search with store := store }
        (result.found, result.store))
      search.store where
  wellMade := repeats.holds.wellMade
  extension := repeats.extension
  valid := repeats.holds.isIn
  again isLater := by
    dsimp only
    rw [repeats.again isLater]

/-- Following several configurations can be repeated. -/
theorem Search.Holds.repeats_each
    (setting : Setting)
    (endIsFree begins : Bool)
    (origins : List Configuration)
    (holds : search.Holds)
    (valid : ∀ origin ∈ origins, search.store.IsIn origin.stack) :
    Search.Repeats
      (fun search => origins.foldl (followFrom setting endIsFree begins) search) search := by
  refine Search.Repeats.foldl (followFrom setting endIsFree begins)
    (fun origin store => store.IsIn origin.stack) (fun extension valid => extension.valid valid)
    ?_ origins holds valid
  intro origin search holds valid
  have refreshed : Search.Repeats (Search.refreshed begins) search :=
    ⟨⟨holds.wellMade, holds.isIn⟩, .refl _, fun _ => rfl⟩
  exact refreshed.comp (refreshed.holds.repeats_follow setting endIsFree
    (followLimit setting.network origin.stack) (.outset begins origin) valid)

/-- Computing the first set of a decision can be repeated. -/
theorem repeats_startSet
    (setting : Setting)
    (decisionState : Nat)
    (fullContext : Bool)
    {stack : StackId}
    (wellMade : store.WellMade)
    (valid : store.IsIn stack) :
    StackStore.Repeats ConfigurationSet.IsIn
      (startSet setting decisionState stack fullContext) store := by
  have isRun :=
    funext fun store => startSet_eq setting decisionState stack fullContext store
  rw [isRun]
  have holds : Search.Holds ⟨store, ConfigurationSet.empty fullContext, ∅⟩ :=
    ⟨wellMade, .empty store fullContext⟩
  refine (holds.repeats_each setting false true _ ?_).found
  intro origin member
  obtain ⟨⟨edge, index⟩, _, rfl⟩ := List.mem_map.mp member
  exact valid

/-- Following the configurations of a set can be repeated. -/
theorem repeats_followAll
    (setting : Setting)
    (endIsFree : Bool)
    {set : ConfigurationSet}
    (wellMade : store.WellMade)
    (isIn : set.IsIn store) :
    StackStore.Repeats ConfigurationSet.IsIn (followAll setting endIsFree set) store := by
  have isRun := funext fun store => followAll_eq setting endIsFree set store
  rw [isRun]
  have holds : Search.Holds ⟨store, ConfigurationSet.empty set.fullContext, ∅⟩ :=
    ⟨wellMade, .empty store set.fullContext⟩
  exact (holds.repeats_each setting endIsFree false _
    fun origin member => isIn origin (Array.mem_toList_iff.mp member)).found

/-- Dropping configurations by their precedence can be repeated. -/
theorem repeats_filterByPrecedence
    (setting : Setting)
    {set : ConfigurationSet}
    (wellMade : store.WellMade)
    (isIn : set.IsIn store) :
    StackStore.Repeats ConfigurationSet.IsIn (filterByPrecedence setting set) store := by
  refine repeats_addAll _ (.empty store _) wellMade ?_
  intro configuration member
  rcases List.mem_append.mp member with isRound | isOther
  · obtain ⟨origin, isOrigin, isSettled⟩ := List.mem_filterMap.mp isRound
    obtain ⟨condition, _, rfl⟩ := Option.map_eq_some_iff.mp isSettled
    exact isIn origin (Array.mem_toList_iff.mp (List.mem_filter.mp isOrigin).1)
  · exact isIn configuration (Array.mem_toList_iff.mp (List.mem_filter.mp isOther).1)

/-- The configurations that a token moves keep their stacks. -/
theorem isIn_moveOver
    {set : ConfigurationSet}
    (network : Network)
    (symbol : Int)
    (isIn : set.IsIn store) :
    ∀ configuration ∈ moveOver network set symbol, store.IsIn configuration.stack := by
  intro configuration member
  obtain ⟨origin, isOrigin, _, _, _, _, rfl⟩ := mem_moveOver_iff.mp member
  exact isIn origin isOrigin

/-- Following what a token leads to can be repeated. -/
theorem repeats_followedSet
    (setting : Setting)
    (symbol : Int)
    (fullContext : Bool)
    {set : ConfigurationSet}
    (wellMade : store.WellMade)
    (isIn : set.IsIn store) :
    StackStore.Repeats ConfigurationSet.IsIn
      (followedSet setting set symbol fullContext) store := by
  have moves :=
    repeats_addAll (moveOver setting.network set symbol) (.empty store fullContext) wellMade
      (isIn_moveOver setting.network symbol isIn)
  exact moves.bind
    (fun moved store =>
      if (finishedConfigurations setting.network set symbol fullContext).isEmpty &&
          !(symbol == endOfInput) && moved.uniqueAlternative?.isSome then
        (moved, store)
      else
        followAll setting (symbol == endOfInput) moved store)
    (.ite (fun _ => .pure moves.wellMade moves.valid)
      (fun _ => repeats_followAll setting _ moves.wellMade moves.valid))

/-- Some or no configurations of a set that is in a store. -/
def ReachedIsIn
    (store : StackStore)
    (reached? : Option ConfigurationSet) :
    Prop :=
  ∀ reached, reached? = some reached → reached.IsIn store

/-- Finding where a token leads can be repeated. -/
theorem repeats_reachSet?
    (setting : Setting)
    (symbol : Int)
    (fullContext : Bool)
    {set : ConfigurationSet}
    (wellMade : store.WellMade)
    (isIn : set.IsIn store) :
    StackStore.Repeats ReachedIsIn (reachSet? setting set symbol fullContext) store := by
  have followed := repeats_followedSet setting symbol fullContext wellMade isIn
  have keptIsIn :
      (keptSet setting.network symbol
        (followedSet setting set symbol fullContext store).1).IsIn
        (followedSet setting set symbol fullContext store).2 := by
    unfold keptSet
    split
    · exact followed.valid.retain _
    · exact followed.valid
  have finishedIsIn :
      ∀ configuration ∈ finishedConfigurations setting.network set symbol fullContext,
        store.IsIn configuration.stack := by
    unfold finishedConfigurations
    split
    · intro configuration member
      exact isIn configuration (Array.mem_toList_iff.mp (List.mem_filter.mp member).1)
    · simp
  let complete (followed : ConfigurationSet) (store : StackStore) :
      ConfigurationSet × StackStore :=
    let kept := keptSet setting.network symbol followed
    if !fullContext || !kept.anyStopped setting.network then
      addAll kept store (finishedConfigurations setting.network set symbol fullContext)
    else
      (kept, store)
  have completes :
      StackStore.Repeats ConfigurationSet.IsIn
        (complete (followedSet setting set symbol fullContext store).1)
        (followedSet setting set symbol fullContext store).2 :=
    .ite
      (fun _ => repeats_addAll _ keptIsIn followed.wellMade fun configuration member =>
        followed.extension.valid (finishedIsIn configuration member))
      (fun _ => .pure followed.wellMade keptIsIn)
  refine (followed.bind complete completes).map
    (fun reached => if reached.isEmpty then none else some reached) ?_
  intro reached isReached
  simp only [Option.ite_none_left_eq_some, Option.some.injEq] at isReached
  obtain ⟨_, rfl⟩ := isReached
  exact completes.valid

/-- Making the stack of some return states can be repeated. -/
theorem repeats_ofReturnStates
    (wellMade : store.WellMade)
    (returnStates : List Nat) :
    StackStore.Repeats StackStore.IsIn (StackStore.ofReturnStates returnStates).run store := by
  have pushes :
      ∀ {stack : StackId} {store : StackStore},
        store.WellMade → store.IsIn stack →
          StackStore.Repeats StackStore.IsIn
            (returnStates.foldlM StackStore.push stack).run store := by
    induction returnStates with
    | nil => exact fun wellMade valid => .pure wellMade valid
    | cons head tail inductionHypothesis =>
        intro stack store wellMade valid
        have first := StackStore.repeats_push wellMade valid head
        exact first.bind (fun stack store => (tail.foldlM StackStore.push stack).run store)
          (inductionHypothesis first.wellMade first.valid)
  exact pushes wellMade wellMade.empty_valid

end Operations

end Prediction

end GrammarService
