import GrammarService.Proofs.Prediction.Following

namespace GrammarService

/-!
# What following free edges from several configurations finds

A prediction follows free edges from several configurations in turn. What it finds has come to
every place that needs a token and that free steps lead to. In full context it has come to nowhere
else.
-/

namespace Prediction

variable
  {network : Network}
  {alternative height span limit : Nat}
  {entered pending : Nat → StackId → Prop}
  {search result : Search}
  {endIsFree : Bool}

/-- Where nothing is in progress, the places that walks come to rest at are found. -/
theorem Closing.reaches
    (closing : Closing network alternative (fun _ _ => False) entered search)
    {firstRule steps : Nat}
    {first last : Place}
    {stack : StackId}
    (nested :
      search.found.fullContext = false →
        ∀ {steps : Nat} {between : Place},
          network.FreeWalk steps first between →
            network.Nested firstRule between.state between.returns)
    (isEntered : entered first.state stack)
    (holds : search.store.Holds (!search.found.fullContext) stack first.returns)
    (walk : network.FreeWalk steps first last)
    (rests : network.Rests last)
    (counts :
      search.found.fullContext = false → network.Counts last.state) :
    search.found.Reaches search.store alternative last.state last.returns := by
  induction walk generalizing stack with
  | stay => exact (closing.settled isEntered id).resting holds rests counts
  | step step _ inductionHypothesis =>
      obtain ⟨below, isEnteredBelow, held⟩ :=
        (closing.settled isEntered id).steps (fun isWild => nested isWild .stay) holds step
      have nestedBehind :=
        fun isWild {steps between} walk => @nested isWild (steps + 1) between (.step step walk)
      exact inductionHypothesis nestedBehind isEnteredBelow held rests counts

/-- The first visit of a configuration. -/
def Visit.outset
    (begins : Bool)
    (configuration : Configuration) :
    Visit where
  configuration := configuration
  collects := begins
  depth := 0
  checked := false

/-- The search before a configuration is followed: those that alternatives begin with are followed
apart. -/
def Search.refreshed
    (begins : Bool)
    (search : Search) :
    Search :=
  { search with visited := if begins then ∅ else search.visited }

/-- Follow the free edges from one of several configurations. -/
def followFrom
    (setting : Setting)
    (endIsFree begins : Bool)
    (search : Search)
    (configuration : Configuration) :
    Search :=
  follow setting endIsFree (followLimit setting.network configuration.stack)
    (.outset begins configuration) (search.refreshed begins)

/-- The first configurations of the alternatives of a decision. -/
def outsets
    (network : Network)
    (decisionState : Nat)
    (stack : StackId) :
    List Configuration :=
  (network.state decisionState).edges.zipIdx.map fun (edge, place) =>
    Configuration.start edge.target (place + 1) stack

theorem startSet_eq
    (setting : Setting)
    (decisionState : Nat)
    (stack : StackId)
    (fullContext : Bool)
    (store : StackStore) :
    startSet setting decisionState stack fullContext store =
      let search :=
        (outsets setting.network decisionState stack).foldl
          (followFrom setting false true)
          ⟨store, ConfigurationSet.empty fullContext, ∅⟩
      (search.found, search.store) := by
  rw [outsets, List.foldl_map]
  let parts (search : Search) := (search.found, search.store)
  exact @List.foldl_hom _ _ _ parts _ _ _ ⟨store, ConfigurationSet.empty fullContext, ∅⟩
    fun _ _ => rfl

theorem followAll_eq
    (setting : Setting)
    (endIsFree : Bool)
    (set : ConfigurationSet)
    (store : StackStore) :
    followAll setting endIsFree set store =
      let search :=
        set.configurations.toList.foldl
          (followFrom setting endIsFree false)
          ⟨store, ConfigurationSet.empty set.fullContext, ∅⟩
      (search.found, search.store) := by
  rw [followAll, Array.foldl_toList]
  rfl

/-- Several configurations were followed: what was found is kept, and found is what may be. -/
structure Follows
    (network : Network)
    (endIsFree : Bool)
    (search : Search)
    (origins : List Configuration)
    (result : Search) :
    Prop where
  fits : result.found.Fits result.store
  grows : search.store.Grows result.store
  fullContext : result.found.fullContext = search.found.fullContext
  kept :
    ∀ {alternative state : Nat} {returns : List Nat},
      search.found.Reaches search.store alternative state returns →
        result.found.Reaches result.store alternative state returns
  only :
    search.found.fullContext = true →
      ∀ {within : Nat → Place → Prop},
        Closed network endIsFree within →
          (∀ origin ∈ origins,
            ∀ {returns : List Nat},
              search.store.Holds false origin.stack returns →
                within origin.alternative ⟨origin.state, returns⟩) →
            ∀ {alternative state : Nat} {returns : List Nat},
              result.found.Reaches result.store alternative state returns →
                search.found.Reaches search.store alternative state returns ∨
                  within alternative ⟨state, returns⟩ ∧ network.Rests ⟨state, returns⟩

section Follow

variable
  {setting : Setting}
  {begins : Bool}
  (shaped : setting.network.RuleShaped)
  (coherent : setting.network.Coherent)
  (plain : setting.network.Plain)

include shaped coherent plain

theorem follows_single
    {origin : Configuration}
    (fits : search.found.Fits search.store)
    (fitting : origin.Fits search.store search.found.fullContext) :
    Follows setting.network endIsFree search [origin]
      (followFrom setting endIsFree begins search origin) := by
  have explores :
      Explores setting.network endIsFree (Visit.outset begins origin).configuration
        (search.refreshed begins) (followFrom setting endIsFree begins search origin) :=
    explores_follow shaped coherent plain _ fits fitting
  exact {
    fits := explores.fits
    grows := explores.grows
    fullContext := explores.fullContext
    kept := explores.kept
    only := fun isFull _ closed begins => explores.only isFull closed (begins origin (by simp)) }

/-- Following several configurations finds what may be found. -/
theorem follows_each
    (origins : List Configuration)
    (fits : search.found.Fits search.store)
    (fitting : ∀ origin ∈ origins, origin.Fits search.store search.found.fullContext) :
    Follows setting.network endIsFree search origins
      (origins.foldl (followFrom setting endIsFree begins) search) := by
  induction origins generalizing search with
  | nil =>
      exact {
        fits := fits
        grows := .refl _
        fullContext := rfl
        kept := id
        only := fun _ _ _ _ => .inl }
  | cons origin origins inductionHypothesis =>
      have originFitting := fitting origin List.mem_cons_self
      have first :=
        @follows_single search endIsFree setting begins shaped coherent plain origin fits
          originFitting
      have laterFitting :
          ∀ other ∈ origins,
            other.Fits (followFrom setting endIsFree begins search origin).store
              (followFrom setting endIsFree begins search origin).found.fullContext := by
        intro other member
        rw [first.fullContext]
        exact (fitting other (List.mem_cons_of_mem origin member)).grows fits.wellMade first.grows
      have later := inductionHypothesis first.fits laterFitting
      rw [List.foldl_cons]
      refine {
        fits := later.fits
        grows := first.grows.trans later.grows
        fullContext := later.fullContext.trans first.fullContext
        kept := fun reached => later.kept (first.kept reached)
        only := ?_ }
      intro isFull within closed outside alternative state returns reached
      have beginsLater :
          ∀ other ∈ origins,
            ∀ {returns : List Nat},
              (followFrom setting endIsFree begins search origin).store.Holds false other.stack
                  returns →
                within other.alternative ⟨other.state, returns⟩ := by
        intro other member returns holds
        have isOther := List.mem_cons_of_mem origin member
        refine outside other isOther ((first.grows.holds_iff fits.wellMade ?_).mp holds)
        exact (fitting other isOther).valid
      rcases later.only (first.fullContext.trans isFull) closed beginsLater reached with
        reached | isWithin
      · have beginsFirst :
            ∀ other ∈ [origin],
              ∀ {returns : List Nat},
                search.store.Holds false other.stack returns →
                  within other.alternative ⟨other.state, returns⟩ := by
          intro other member
          rw [List.mem_singleton.mp member]
          exact outside origin List.mem_cons_self
        exact first.only isFull closed beginsFirst reached
      · exact .inr isWithin

end Follow

/-- The keys that an alternative can have outside all rule invocations. -/
def outerKeys
    (network : Network)
    (alternative : Nat) :
    List Configuration.Key :=
  (List.range network.states.size).flatMap fun state =>
    [⟨state, alternative, StackId.empty, .always, false⟩,
      ⟨state, alternative, StackId.empty, .always, true⟩]

theorem remains_outerKeys
    (search : Search) :
    Remains network alternative search (outerKeys network alternative) := by
  rintro ⟨state, _, _, _, suppressed⟩ rfl inBounds rfl rfl _
  refine List.mem_flatMap.mpr ⟨state, List.mem_range.mpr inBounds, ?_⟩
  cases suppressed <;> simp

theorem length_outerKeys :
    (outerKeys network alternative).length = network.states.size * 2 := by
  simp [outerKeys, List.length_flatMap]

/-- The bound on walks without a token that the limit leaves room for. -/
def walkSpan
    (network : Network)
    (stack : StackId) :
    Nat :=
  network.innerBound network.ruleCount * (stack + 1)

theorem spans_walkSpan
    (shaped : network.RuleShaped)
    (coherent : network.Coherent)
    (nonLooping : network.NonLooping)
    (stack : StackId) :
    Spans network stack (walkSpan network stack) := by
  intro steps first last low walk
  have callsAtMost := Network.callsAtMost_ruleCount shaped coherent
  refine lt_of_lt_of_le (walk.lt_bound coherent (nonLooping.acyclic shaped) callsAtMost) ?_
  exact Nat.mul_le_mul_left _ (by omega)

/-- The limit is enough for a walk behind each key with a stack below the first one, and one
more. -/
theorem enough_followLimit_keys
    (network : Network)
    (stack : StackId) :
    network.states.size * (stack + 1) * 2 * (walkSpan network stack + 1) +
        walkSpan network stack + 1 ≤
      followLimit network stack := by
  have two_mul_le : network.states.size * 2 ≤ (network.states.size + 2) ^ 2 := by
    nlinarith
  have inWalks :
      ∀ {exponent : Nat},
        exponent ≤ network.ruleCount + 3 →
          (network.states.size + 2) ^ exponent ≤ network.walkBound :=
    fun few => le_trans (Nat.pow_le_pow_right (by omega) few) (Network.pow_le_powerBound _ _)
  have powPositive : 0 < Nat.pow 2 (conditionCount network + 2) :=
    Nat.pow_pos (by omega)
  have few : network.states.size * (stack + 1) * 2 + 1 ≤ configurationBound network stack + 1 := by
    have isSquare : (network.states.size + 2) ^ 2 ≤ network.walkBound := inWalks (by omega)
    have inBound :
        network.walkBound * (stack + 1) ≤ configurationBound network stack :=
      Nat.le_mul_of_pos_right _ powPositive
    calc
      network.states.size * (stack + 1) * 2 + 1
      _ = network.states.size * 2 * (stack + 1) + 1 := by ring
      _ ≤ network.walkBound * (stack + 1) + 1 :=
        Nat.succ_le_succ (Nat.mul_le_mul_right _ (le_trans two_mul_le isSquare))
      _ ≤ configurationBound network stack + 1 := Nat.succ_le_succ inBound
  have short : walkSpan network stack + 1 ≤ configurationBound network stack + 1 := by
    have isInner : network.innerBound network.ruleCount ≤ network.walkBound := inWalks (by omega)
    have inBound : walkSpan network stack ≤ configurationBound network stack := by
      refine le_trans (Nat.mul_le_mul_right _ isInner) ?_
      exact Nat.le_mul_of_pos_right _ powPositive
    omega
  calc
    network.states.size * (stack + 1) * 2 * (walkSpan network stack + 1) +
        walkSpan network stack + 1
    _ = (network.states.size * (stack + 1) * 2 + 1) * (walkSpan network stack + 1) := by ring
    _ ≤ followLimit network stack := Nat.mul_le_mul few short

/-- The limit is enough for a walk behind each of the keys without a stack, and one more. -/
theorem enough_followLimit
    (network : Network)
    (stack : StackId) :
    network.states.size * 2 * (walkSpan network stack + 1) + walkSpan network stack + 1 ≤
      followLimit network stack := by
  have fewer : network.states.size * 2 ≤ network.states.size * (stack + 1) * 2 :=
    Nat.mul_le_mul_right 2 (Nat.le_mul_of_pos_right _ (Nat.succ_pos stack))
  have isEnough := enough_followLimit_keys network stack
  have less := Nat.mul_le_mul_right (walkSpan network stack + 1) fewer
  omega

section Cover

variable
  {setting : Setting}
  {begins : Bool}
  (shaped : setting.network.RuleShaped)
  (coherent : setting.network.Coherent)
  (plain : setting.network.Plain)
  (nonLooping : setting.network.NonLooping)
  {store : StackStore}

/-- The limit is enough for a configuration that was there when it was set. -/
theorem suffices_outset
    {origin : Configuration}
    (wellMade : store.WellMade)
    (valid : origin.stack < store.nodes.size)
    (grows : store.Grows search.store) :
    Suffices setting.network origin.stack (walkSpan setting.network origin.stack)
      (.outset begins origin) search (followLimit setting.network origin.stack) := by
  refine ⟨outerKeys setting.network origin.alternative, remains_outerKeys search,
    .inr ⟨rfl, 0, ?_, ?_⟩⟩
  · intro returns holds
    have held : store.Holds false origin.stack returns :=
      (grows.holds_iff wellMade valid).mp holds
    exact ⟨⟨origin.state, returns⟩, wellMade.length_le held, .stay⟩
  · rw [length_outerKeys, Nat.sub_zero]
    exact enough_followLimit setting.network origin.stack

include shaped coherent plain nonLooping

/-- Following several configurations closes those of each alternative. -/
theorem closing_each
    (wellMade : store.WellMade)
    (origins : List Configuration)
    (valid : ∀ origin ∈ origins, origin.stack < store.nodes.size)
    (grows : store.Grows search.store)
    (fits : search.found.Fits search.store)
    (fitting : ∀ origin ∈ origins, origin.Fits search.store search.found.fullContext)
    (closing : Closing setting.network alternative (fun _ _ => False) entered search) :
    ∃ entered' : Nat → StackId → Prop,
      (∀ {state : Nat} {stack : StackId}, entered state stack → entered' state stack) ∧
        (∀ origin ∈ origins,
          origin.alternative = alternative → entered' origin.state origin.stack) ∧
          Closing setting.network alternative (fun _ _ => False) entered'
            (origins.foldl
              (followFrom setting false begins) search) := by
  induction origins generalizing search entered with
  | nil => exact ⟨entered, id, by simp, closing⟩
  | cons origin origins inductionHypothesis =>
      have originFitting := fitting origin List.mem_cons_self
      have refreshed :
          Closing setting.network alternative (fun _ _ => False) entered
            (search.refreshed begins) := by
        refine {
          valid := closing.valid
          settled := ?_
          visited := ?_ }
        · intro state stack isEntered notPending
          exact ⟨(closing.settled isEntered notPending).steps,
            (closing.settled isEntered notPending).resting⟩
        · intro key isVisited isAlternative
          refine closing.visited ?_ isAlternative
          unfold Search.refreshed at isVisited
          cases begins with
          | false => exact isVisited
          | true => simp at isVisited
      have refreshedFits : (search.refreshed begins).found.Fits (search.refreshed begins).store :=
        fits
      have refreshedFitting :
          (Visit.outset begins origin).configuration.Fits (search.refreshed begins).store
            (search.refreshed begins).found.fullContext :=
        originFitting
      have explores :=
        @explores_follow setting false shaped coherent plain
          (followLimit setting.network origin.stack) _ _ refreshedFits refreshedFitting
      obtain ⟨between, more, isEntered, closingFirst⟩ :
          ∃ between : Nat → StackId → Prop,
            (∀ {state : Nat} {stack : StackId}, entered state stack → between state stack) ∧
              (origin.alternative = alternative → between origin.state origin.stack) ∧
                Closing setting.network alternative (fun _ _ => False) between
                  (followFrom setting false begins search
                    origin) := by
        by_cases sameAlternative : origin.alternative = alternative
        · have growsRefreshed : store.Grows (search.refreshed begins).store := grows
          have enough :=
            @suffices_outset (search.refreshed begins) setting begins store origin wellMade
              (valid origin List.mem_cons_self) growsRefreshed
          obtain ⟨between, more, isEntered, closed⟩ :=
            closing_follow shaped coherent plain
              (spans_walkSpan shaped coherent nonLooping origin.stack) _ refreshedFits refreshedFitting
              sameAlternative enough refreshed
          exact ⟨between, more, fun _ => isEntered, closed⟩
        · refine ⟨entered, id, fun same => absurd same sameAlternative, ?_⟩
          refine refreshed.explored refreshedFits explores ?_
          intro key isVisited isAlternative
          rcases explores.marks isVisited with wasVisited | same
          · exact wasVisited
          · exact absurd (same.symm.trans isAlternative) sameAlternative
      have laterFitting :
          ∀ other ∈ origins,
            other.Fits
              (followFrom setting false begins search
                origin).store
              (followFrom setting false begins search
                origin).found.fullContext := by
        intro other member
        have growsFirst := explores.grows
        have sameMode := explores.fullContext
        have otherFitting := fitting other (List.mem_cons_of_mem origin member)
        have later := otherFitting.grows fits.wellMade growsFirst
        rw [show search.found.fullContext = (search.refreshed begins).found.fullContext from rfl,
          ← sameMode] at later
        exact later
      obtain ⟨entered', more', isEntered', closing'⟩ :=
        inductionHypothesis (fun other member => valid other (List.mem_cons_of_mem origin member))
          (grows.trans explores.grows) explores.fits laterFitting closingFirst
      refine ⟨entered', more' ∘ more, ?_, closing'⟩
      intro other member same
      rcases List.mem_cons.mp member with rfl | isRest
      · exact more' (isEntered same)
      · exact isEntered' other isRest same

/-- Following several configurations finds all places that walks come to rest at. -/
theorem reaches_each
    {fullContext : Bool}
    {origins : List Configuration}
    {origin : Configuration}
    (wellMade : store.WellMade)
    (fitting : ∀ origin ∈ origins, origin.Fits store fullContext)
    (member : origin ∈ origins)
    {firstRule steps : Nat}
    {returns : List Nat}
    {last : Place}
    (nested :
      fullContext = false →
        ∀ {steps : Nat} {between : Place},
          setting.network.FreeWalk steps ⟨origin.state, returns⟩ between →
            setting.network.Nested firstRule between.state between.returns)
    (holds : store.Holds (!fullContext) origin.stack returns)
    (walk : setting.network.FreeWalk steps ⟨origin.state, returns⟩ last)
    (rests : setting.network.Rests last)
    (counts : fullContext = false → setting.network.Counts last.state) :
    let result :=
      origins.foldl (followFrom setting false begins)
        ⟨store, ConfigurationSet.empty fullContext, ∅⟩
    result.found.Reaches result.store origin.alternative last.state last.returns := by
  have begun :
      Closing setting.network origin.alternative (fun _ _ => False) (fun _ _ => False)
        ⟨store, ConfigurationSet.empty fullContext, ∅⟩ :=
    ⟨False.elim, False.elim, by simp⟩
  have emptyFits := ConfigurationSet.Fits.empty wellMade fullContext
  obtain ⟨entered, _, isEntered, closing⟩ :=
    @closing_each _ _ ⟨store, ConfigurationSet.empty fullContext, ∅⟩ setting begins shaped
      coherent plain nonLooping store wellMade origins
      (fun origin member => (fitting origin member).valid) (.refl store) emptyFits fitting begun
  have follows :=
    @follows_each ⟨store, ConfigurationSet.empty fullContext, ∅⟩ false setting begins shaped
      coherent plain origins emptyFits fitting
  intro result
  have sameMode : result.found.fullContext = fullContext := follows.fullContext
  rw [← sameMode] at nested counts
  refine closing.reaches nested (isEntered origin member rfl) ?_ walk rests counts
  rw [sameMode, follows.grows.holds_iff wellMade (fitting origin member).valid]
  exact holds

end Cover

end Prediction

end GrammarService
