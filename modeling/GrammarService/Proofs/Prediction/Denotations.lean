import GrammarService.Proofs.Prediction.Canonical

namespace GrammarService

/-!
# Merging as union

Every store that is reached by pushing and merging is canonical, so a stack is known by what it
denotes, and merging stacks is uniting what they denote. That two merges come to the same stack
follows from that, no matter what the store held or remembered in between.

Where the empty stack is any stack, a stack denotes whatever begins with one of its paths. Then no
path of a stack begins with another one, and merging keeps just those paths that do not begin with
another one of the two stacks.
-/

namespace StackStore

variable
  {store after later : StackStore}
  {emptyIsAny : Bool}
  {stack first second third : StackId}
  {returns path : List Nat}

/-- Stacks are pushed and merged, one after the other, from one store to a later one. -/
inductive Reaches
    (store : StackStore)
    (emptyIsAny : Bool) :
    StackStore → Prop where
  | refl : Reaches store emptyIsAny store
  | push
      {after : StackStore}
      {below : StackId}
      (reaches : Reaches store emptyIsAny after)
      (isIn : after.IsIn below)
      (returnState : Nat) :
      Reaches store emptyIsAny ((StackStore.push below returnState).run after).2
  | ofReturnStates
      {after : StackStore}
      (reaches : Reaches store emptyIsAny after)
      (returnStates : List Nat) :
      Reaches store emptyIsAny ((StackStore.ofReturnStates returnStates).run after).2
  | merge
      {after : StackStore}
      {first second : StackId}
      (reaches : Reaches store emptyIsAny after)
      (firstIsIn : after.IsIn first)
      (secondIsIn : after.IsIn second) :
      Reaches store emptyIsAny ((StackStore.merge first second emptyIsAny).run after).2

/-- A list of return states begins with one of the paths through a stack. -/
def Admits
    (store : StackStore)
    (stack : StackId)
    (returns : List Nat) :
    Prop :=
  ∃ path, store.Holds false stack path ∧ path <+: returns

/-- Merging two stacks comes to a third one, now and at any later time. -/
structure MergesTo
    (store : StackStore)
    (emptyIsAny : Bool)
    (first second stack : StackId) :
    Prop where
  firstIsIn : store.IsIn first
  secondIsIn : store.IsIn second
  isIn : store.IsIn stack
  always :
    ∀ {later : StackStore},
      store.Reaches emptyIsAny later →
        ((merge first second emptyIsAny).run later).1 = stack

/-- Stacks are known by what they denote, and merging them unites what they denote. -/
structure MergesAsUnion
    (store : StackStore)
    (emptyIsAny : Bool)
    (denotes : StackStore → StackId → List Nat → Prop) :
    Prop where
  same_iff :
    ∀ {first second : StackId},
      store.IsIn first → store.IsIn second →
        (first = second ↔ ∀ returns, denotes store first returns ↔ denotes store second returns)
  merges :
    ∀ {first second : StackId},
      store.IsIn first → store.IsIn second →
        let made := (merge first second emptyIsAny).run store
        made.2.MergesTo emptyIsAny first second made.1 ∧
          ∀ returns,
            denotes made.2 made.1 returns ↔
              denotes store first returns ∨ denotes store second returns
  commutative :
    ∀ {first second stack : StackId},
      store.MergesTo emptyIsAny first second stack → store.MergesTo emptyIsAny second first stack
  associative :
    ∀ {first second third left right stack : StackId},
      store.MergesTo emptyIsAny first second left →
        store.MergesTo emptyIsAny second third right →
          (store.MergesTo emptyIsAny left third stack ↔
            store.MergesTo emptyIsAny first right stack)
  idempotent :
    ∀ {stack : StackId}, store.IsIn stack → store.MergesTo emptyIsAny stack stack stack

/-- What a stack stands for it stands for if the empty stack is any stack. -/
theorem Holds.of_exact
    (holds : store.Holds false stack returns)
    (emptyIsAny : Bool) :
    store.Holds emptyIsAny stack returns := by
  induction holds with
  | empty ends => exact .empty (.inr (ends.resolve_left Bool.false_ne_true))
  | bottom present ends => exact .bottom present (.inr (ends.resolve_left Bool.false_ne_true))
  | entry present _ inductionHypothesis => exact .entry present inductionHypothesis

namespace Canonical

variable (canonical : store.Canonical emptyIsAny)

include canonical

/-- Pushing a state to return to keeps a store canonical. -/
theorem push
    (isIn : store.IsIn stack)
    (follow : Nat) :
    ((push stack follow).run store).2.Canonical emptyIsAny :=
  (canonical.sound.push isIn follow).canonical

/-- Pushing one state after the other keeps a store canonical. -/
theorem foldlM_push
    (isIn : store.IsIn stack)
    (returnStates : List Nat) :
    ((returnStates.foldlM StackStore.push stack).run store).2.Canonical emptyIsAny ∧
      store.Grows ((returnStates.foldlM StackStore.push stack).run store).2 := by
  induction returnStates generalizing store stack with
  | nil => exact ⟨canonical, .refl store⟩
  | cons follow rest inductionHypothesis =>
      have interns := interns_push canonical.toWellMade isIn follow
      obtain ⟨stillCanonical, grows⟩ :=
        inductionHypothesis (canonical.push isIn follow) interns.valid
      rw [List.foldlM_cons]
      exact ⟨stillCanonical, interns.grows.trans grows⟩

theorem unites_merge
    (firstIsIn : store.IsIn first)
    (secondIsIn : store.IsIn second) :
    store.Unites emptyIsAny first second ((merge first second emptyIsAny).run store) :=
  (canonical.sound.unitesWays_merge (Set.mem_singleton _) firstIsIn secondIsIn).unites canonical

/-- Stores that are reached from a canonical one are canonical. -/
theorem of_reaches
    (reaches : store.Reaches emptyIsAny after) :
    after.Canonical emptyIsAny ∧ store.Grows after := by
  induction reaches with
  | refl => exact ⟨canonical, .refl store⟩
  | push _ isIn follow inductionHypothesis =>
      obtain ⟨isCanonical, grows⟩ := inductionHypothesis
      exact ⟨isCanonical.push isIn follow,
        grows.trans (interns_push isCanonical.toWellMade isIn follow).grows⟩
  | ofReturnStates _ returnStates inductionHypothesis =>
      obtain ⟨isCanonical, grows⟩ := inductionHypothesis
      obtain ⟨stillCanonical, grows'⟩ :=
        isCanonical.foldlM_push isCanonical.empty_valid returnStates
      exact ⟨stillCanonical, grows.trans grows'⟩
  | merge _ firstIsIn secondIsIn inductionHypothesis =>
      obtain ⟨isCanonical, grows⟩ := inductionHypothesis
      have unites := isCanonical.unites_merge firstIsIn secondIsIn
      exact ⟨unites.canonical, grows.trans unites.grows⟩

/-- Stacks that stand for the same are the same. -/
theorem eq_of_alike
    (firstIsIn : store.IsIn first)
    (secondIsIn : store.IsIn second)
    (alike :
      ∀ returns, store.Holds emptyIsAny first returns ↔ store.Holds emptyIsAny second returns) :
    first = second := by
  have sameWays :
      ∀ way, store.Spells emptyIsAny first way ↔ store.Spells emptyIsAny second way := by
    intro way
    rw [canonical.spells_iff_holds canonical.bottomAllowed,
      canonical.spells_iff_holds canonical.bottomAllowed, alike]
  exact canonical.sound.eq_of_same_ways firstIsIn secondIsIn sameWays

/-- Two stacks merge to the one that stands for what either stands for. -/
theorem mergesTo_iff :
    store.MergesTo emptyIsAny first second stack ↔
      (store.IsIn first ∧ store.IsIn second ∧ store.IsIn stack) ∧
        ∀ returns,
          store.Holds emptyIsAny stack returns ↔
            store.Holds emptyIsAny first returns ∨ store.Holds emptyIsAny second returns := by
  constructor
  · rintro ⟨firstIsIn, secondIsIn, isIn, always⟩
    have unites := canonical.unites_merge firstIsIn secondIsIn
    refine ⟨⟨firstIsIn, secondIsIn, isIn⟩, fun returns => ?_⟩
    rw [← unites.united, always .refl]
    exact (unites.grows.holds_iff canonical.toWellMade isIn).symm
  · rintro ⟨⟨firstIsIn, secondIsIn, isIn⟩, united⟩
    refine ⟨firstIsIn, secondIsIn, isIn, fun {later} reaches => ?_⟩
    obtain ⟨isCanonical, grows⟩ := canonical.of_reaches reaches
    have unites := isCanonical.unites_merge (grows.valid firstIsIn) (grows.valid secondIsIn)
    refine unites.canonical.eq_of_alike unites.isIn
      (unites.grows.valid (grows.valid isIn)) fun returns => ?_
    rw [unites.united, (grows.trans unites.grows).holds_iff canonical.toWellMade isIn, united,
      grows.holds_iff canonical.toWellMade firstIsIn,
      grows.holds_iff canonical.toWellMade secondIsIn]

/-- Merging in a canonical store is union. -/
theorem mergesAsUnion : store.MergesAsUnion emptyIsAny fun store => store.Holds emptyIsAny where
  same_iff firstIsIn secondIsIn :=
    ⟨fun same _ => by rw [same], canonical.eq_of_alike firstIsIn secondIsIn⟩
  merges := by
    intro first second firstIsIn secondIsIn
    have unites := canonical.unites_merge firstIsIn secondIsIn
    have firstStays := unites.grows.valid firstIsIn
    have secondStays := unites.grows.valid secondIsIn
    refine ⟨unites.canonical.mergesTo_iff.mpr ⟨⟨firstStays, secondStays, unites.isIn⟩, ?_⟩,
      fun returns => unites.united⟩
    intro returns
    rw [unites.united, unites.grows.holds_iff canonical.toWellMade firstIsIn,
      unites.grows.holds_iff canonical.toWellMade secondIsIn]
  commutative := by
    intro first second stack
    simp only [canonical.mergesTo_iff]
    rintro ⟨⟨firstIsIn, secondIsIn, isIn⟩, united⟩
    exact ⟨⟨secondIsIn, firstIsIn, isIn⟩, fun returns => (united returns).trans or_comm⟩
  associative := by
    intro first second third left right stack
    simp only [canonical.mergesTo_iff]
    rintro ⟨⟨firstIsIn, secondIsIn, leftIsIn⟩, left⟩ ⟨⟨-, thirdIsIn, rightIsIn⟩, right⟩
    simp [left, right, firstIsIn, thirdIsIn, leftIsIn, rightIsIn, or_assoc]
  idempotent := by
    intro stack isIn
    rw [canonical.mergesTo_iff]
    exact ⟨⟨isIn, isIn, isIn⟩, fun returns => or_self_iff.symm⟩

end Canonical

/-- Where the empty stack is any stack, a stack stands for what begins with one of its paths. -/
theorem holds_any_iff :
    store.Holds true stack returns ↔ store.Admits stack returns := by
  constructor
  · intro holds
    induction holds with
    | empty => exact ⟨[], .empty (.inr rfl), List.nil_prefix⟩
    | bottom present => exact ⟨[], .bottom present (.inr rfl), List.nil_prefix⟩
    | entry present _ inductionHypothesis =>
        obtain ⟨path, isPath, begins⟩ := inductionHypothesis
        exact ⟨_, .entry present isPath, List.cons_prefix_cons.mpr ⟨rfl, begins⟩⟩
  · rintro ⟨path, isPath, begins⟩
    induction isPath generalizing returns with
    | empty => exact .empty (.inl rfl)
    | bottom present => exact .bottom present (.inl rfl)
    | entry present _ inductionHypothesis =>
        cases returns with
        | nil => simp at begins
        | cons follow rest =>
            obtain ⟨rfl, restBegins⟩ := List.cons_prefix_cons.mp begins
            exact .entry present (inductionHypothesis restBegins)

/-- No path of a stack begins with another one of its paths. -/
theorem Canonical.path_unique
    (canonical : store.Canonical true)
    {longer : List Nat}
    (isPath : store.Holds false stack path)
    (isLonger : store.Holds false stack longer)
    (begins : path <+: longer) :
    path = longer := by
  induction isPath generalizing longer with
  | empty ends =>
      rcases canonical.holds_empty_iff.mp isLonger with isAny | isNil
      · cases isAny
      · rw [isNil, ends.resolve_left Bool.false_ne_true]
  | bottom present => exact absurd rfl (canonical.bottomAllowed _ rfl _ present)
  | entry present rest inductionHypothesis =>
      cases longer with
      | nil => simp at begins
      | cons follow outer =>
          obtain ⟨rfl, restBegins⟩ := List.cons_prefix_cons.mp begins
          generalize isWhole : _ :: outer = whole at isLonger
          cases isLonger with
          | empty => simp [canonical.entries_empty] at present
          | bottom present' => exact absurd rfl (canonical.bottomAllowed _ rfl _ present')
          | entry present' rest' =>
              obtain ⟨rfl, rfl⟩ := List.cons.inj isWhole
              rw [← canonical.sound.below_unique present present'] at rest'
              rw [inductionHypothesis rest' restBegins]

/-- The paths of merged stacks are those that do not begin with another one of either. -/
theorem Unites.path_iff
    {made : StackId × StackStore}
    (unites : store.Unites true first second made) :
    made.2.Holds false made.1 path ↔
      (store.Holds false first path ∨ store.Holds false second path) ∧
        ∀ shorter,
          store.Holds false first shorter ∨ store.Holds false second shorter →
            shorter <+: path → shorter = path := by
  have of_made :
      ∀ {path : List Nat},
        made.2.Holds false made.1 path →
          ∃ shorter,
            (store.Holds false first shorter ∨ store.Holds false second shorter) ∧
              shorter <+: path := by
    intro path isPath
    rcases unites.united.mp (isPath.of_exact true) with holds | holds <;>
      obtain ⟨shorter, isShorter, begins⟩ := holds_any_iff.mp holds
    · exact ⟨shorter, .inl isShorter, begins⟩
    · exact ⟨shorter, .inr isShorter, begins⟩
  have to_made :
      ∀ {path : List Nat},
        store.Holds false first path ∨ store.Holds false second path →
          ∃ shorter, made.2.Holds false made.1 shorter ∧ shorter <+: path :=
    fun isPath =>
      holds_any_iff.mp (unites.united.mpr (isPath.imp (·.of_exact true) (·.of_exact true)))
  have minimal :
      ∀ {path shorter : List Nat},
        made.2.Holds false made.1 path →
          store.Holds false first shorter ∨ store.Holds false second shorter →
            shorter <+: path → shorter = path := by
    intro path shorter isPath isShorter begins
    obtain ⟨shortest, isShortest, shortestBegins⟩ := to_made isShorter
    have same := unites.canonical.path_unique isShortest isPath (shortestBegins.trans begins)
    exact begins.eq_of_length_le (same ▸ shortestBegins.length_le)
  constructor
  · intro isPath
    obtain ⟨shorter, isShorter, begins⟩ := of_made isPath
    exact ⟨minimal isPath isShorter begins ▸ isShorter, fun _ => minimal isPath⟩
  · rintro ⟨isPath, isMinimal⟩
    obtain ⟨shorter, isShorter, begins⟩ := to_made isPath
    obtain ⟨shortest, isShortest, shortestBegins⟩ := of_made isShorter
    have same := isMinimal shortest isShortest (shortestBegins.trans begins)
    rwa [begins.eq_of_length_le (same ▸ shortestBegins.length_le)] at isShorter

/-- Stacks that return to 4 and to 4 and then 2, and what they are merged to. -/
def forks (emptyIsAny : Bool) : StackStore :=
  let single := ((push StackId.empty 4).run initial).2
  let double := ((ofReturnStates [2, 4]).run single).2
  ((merge 1 3 emptyIsAny).run double).2

theorem reaches_forks (emptyIsAny : Bool) : initial.Reaches emptyIsAny (forks emptyIsAny) := by
  refine .merge (.ofReturnStates (.push .refl ?_ 4) [2, 4]) ?_ ?_
  · exact Nat.one_pos
  · cbv
  · cbv

namespace Reaches

/-- Where the empty stack is one more way to return, stacks are sets in ascending form. -/
theorem merges_exact_stacks
    (reaches : initial.Reaches false store) :
    (∀ stack, store.IsIn stack → Ascends (store.entries stack)) ∧
      store.MergesAsUnion false fun store => store.Holds false := by
  obtain ⟨canonical, -⟩ := (Canonical.initial false).of_reaches reaches
  exact ⟨fun stack _ => canonical.ascends stack, canonical.mergesAsUnion⟩

theorem merges_exact_forks :
    initial.Reaches false (forks false) ∧
      (∀ stack, (forks false).IsIn stack → Ascends ((forks false).entries stack)) ∧
        (forks false).MergesAsUnion false fun store => store.Holds false :=
  ⟨reaches_forks false, merges_exact_stacks (reaches_forks false)⟩

/-- Where the empty stack is any stack, it takes in what goes on below it, however deep. -/
theorem merges_open_stacks
    (reaches : initial.Reaches true store) :
    (∀ stack, store.IsIn stack → ∀ entry ∈ store.entries stack, entry.returnState ≠ none) ∧
      (∀ stack path longer,
        store.IsIn stack → store.Holds false stack path → store.Holds false stack longer →
          path <+: longer → path = longer) ∧
      store.MergesAsUnion true Admits ∧
      ∀ first second,
        store.IsIn first → store.IsIn second →
          let made := (StackStore.merge first second true).run store
          ∀ path,
            made.2.Holds false made.1 path ↔
              (store.Holds false first path ∨ store.Holds false second path) ∧
                ∀ shorter,
                  store.Holds false first shorter ∨ store.Holds false second shorter →
                    shorter <+: path → shorter = path := by
  obtain ⟨canonical, -⟩ := (Canonical.initial true).of_reaches reaches
  have sameDenotation : (fun store : StackStore => store.Holds true) = Admits := by
    funext store stack returns
    exact propext holds_any_iff
  refine ⟨fun stack _ => canonical.bottomAllowed stack rfl, ?_, ?_, ?_⟩
  · exact fun stack path longer _ isPath isLonger => canonical.path_unique isPath isLonger
  · exact sameDenotation ▸ canonical.mergesAsUnion
  · exact fun first second firstIsIn secondIsIn path =>
      (canonical.unites_merge firstIsIn secondIsIn).path_iff

theorem merges_open_forks :
    initial.Reaches true (forks true) ∧
      (forks true).MergesAsUnion true Admits ∧
        ∀ stack, (forks true).IsIn stack →
          ∀ entry ∈ (forks true).entries stack, entry.returnState ≠ none :=
  have united := merges_open_stacks (reaches_forks true)
  ⟨reaches_forks true, united.2.2.1, united.1⟩

/-- What returns to 4 and then 2 is taken in by what returns to 4 and then anywhere. -/
example : ((StackStore.merge 1 3 true).run (forks true)).1 = 1 := by cbv

end Reaches

end StackStore

end GrammarService
