import GrammarService.Proofs.Prediction.Memories

namespace GrammarService

/-!
# Simulating tokens with the real rule invocations

A decision in full context begins with the real rule invocations below each alternative, and goes
on over tokens as long as several alternatives are left. Its configuration sets stand for exactly
the places that walks of an alternative come to rest at after the same tokens: merging stacks
neither loses a way to return nor makes one up.
-/

namespace Network

variable {network : Network} {first second last : Place} {types : List Int}

/-- A walk without a token goes on with whatever is read behind it. -/
theorem FreeWalk.reads
    {steps : Nat}
    (walk : network.FreeWalk steps first second)
    (rest : network.Reads second types last) :
    network.Reads first types last := by
  induction walk with
  | stay => exact rest
  | step step _ inductionHypothesis => exact .free step (inductionHypothesis rest)

/-- What reads nothing is a walk without a token. -/
theorem Reads.freeWalk
    (reads : network.Reads first [] last) :
    ∃ steps, network.FreeWalk steps first last := by
  generalize isNothing : ([] : List Int) = types at reads
  induction reads with
  | stay => exact ⟨0, .stay⟩
  | free step _ inductionHypothesis =>
      obtain ⟨steps, walk⟩ := inductionHypothesis isNothing
      exact ⟨steps + 1, .step step walk⟩
  | token => cases isNothing

theorem Reads.append
    {more : List Int}
    (reads : network.Reads first types second)
    (rest : network.Reads second more last) :
    network.Reads first (types ++ more) last := by
  induction reads with
  | stay => exact rest
  | free step _ inductionHypothesis => exact .free step (inductionHypothesis rest)
  | token step _ inductionHypothesis => exact .token step (inductionHypothesis rest)

/-- Reading one more token is to read the others, to step over it, and to walk on freely. -/
theorem reads_snoc_iff
    {type : Int} :
    network.Reads first (types ++ [type]) last ↔
      ∃ before after steps,
        network.Reads first types before ∧
          network.TokenStep type before after ∧ network.FreeWalk steps after last := by
  constructor
  · intro reads
    generalize isAll : types ++ [type] = all at reads
    induction reads generalizing types with
    | stay => simp at isAll
    | free step _ inductionHypothesis =>
        obtain ⟨before, after, steps, reads, token, walk⟩ := inductionHypothesis isAll
        exact ⟨before, after, steps, .free step reads, token, walk⟩
    | @token first _ _ _ _ step rest inductionHypothesis =>
        cases types with
        | nil =>
            simp only [List.nil_append, List.cons.injEq] at isAll
            obtain ⟨rfl, rfl⟩ := isAll
            obtain ⟨steps, walk⟩ := rest.freeWalk
            exact ⟨first, _, steps, .stay, step, walk⟩
        | cons head tail =>
            simp only [List.cons_append, List.cons.injEq] at isAll
            obtain ⟨rfl, isRest⟩ := isAll
            obtain ⟨before, after, steps, reads, token, walk⟩ := inductionHypothesis isRest
            exact ⟨before, after, steps, .token step reads, token, walk⟩
  · rintro ⟨before, after, steps, reads, token, walk⟩
    exact reads.append (.token token (walk.reads .stay))

/-- A walk rests where it steps over a token. -/
theorem TokenStep.rests
    (shaped : network.RuleShaped)
    {type : Int}
    (token : network.TokenStep type first second) :
    network.Rests first := by
  cases token with
  | @edge number returns edge inside present consumes =>
      have notFree : edge.isFree = false := by
        cases edge <;> first | rfl | cases consumes
      have onlyEdge := shaped.alone present notFree
      intro next step
      cases step with
      | edge _ other isFree =>
          rw [onlyEdge, List.mem_singleton] at other
          rw [other, notFree] at isFree
          cases isFree
      | call _ other =>
          rw [onlyEdge, List.mem_singleton] at other
          rw [← other] at consumes
          cases consumes
      | leave stopped => exact inside stopped

/--
The places that an alternative of a decision comes to over tokens, where the rules in progress
return to the given states, innermost first.
-/
def ComesTo
    (network : Network)
    (decisionState : Nat)
    (outer : List Nat)
    (types : List Int)
    (alternative : Nat)
    (place : Place) :
    Prop :=
  ∃ index edge,
    (network.state decisionState).edges[index]? = some edge ∧ alternative = index + 1 ∧
      network.Reads ⟨edge.target, outer⟩ types place

/-- Over one more token an alternative steps from where it came to rest, and walks on freely. -/
theorem comesTo_snoc_iff
    (shaped : network.RuleShaped)
    {decisionState alternative : Nat}
    {outer : List Nat}
    {type : Int} :
    network.ComesTo decisionState outer (types ++ [type]) alternative last ↔
      ∃ before after steps,
        (network.ComesTo decisionState outer types alternative before ∧ network.Rests before) ∧
          network.TokenStep type before after ∧ network.FreeWalk steps after last := by
  constructor
  · rintro ⟨index, edge, isEdge, isAlternative, reads⟩
    obtain ⟨before, after, steps, reads, token, walk⟩ := reads_snoc_iff.mp reads
    exact ⟨before, after, steps, ⟨⟨index, edge, isEdge, isAlternative, reads⟩, token.rests shaped⟩,
      token, walk⟩
  · rintro ⟨before, after, steps, ⟨⟨index, edge, isEdge, isAlternative, reads⟩, _⟩, token, walk⟩
    exact ⟨index, edge, isEdge, isAlternative,
      reads_snoc_iff.mpr ⟨before, after, steps, reads, token, walk⟩⟩

end Network

namespace ConfigurationSet

/-- At least two alternatives are left in a set. -/
def IsContested (set : ConfigurationSet) : Prop :=
  ∃ first ∈ set.configurations, ∃ second ∈ set.configurations,
    first.alternative ≠ second.alternative

instance (set : ConfigurationSet) : Decidable set.IsContested :=
  inferInstanceAs
    (Decidable
      (∃ first ∈ set.configurations, ∃ second ∈ set.configurations,
        first.alternative ≠ second.alternative))

/-- A set of a single alternative is not contested. -/
theorem uniqueAlternative?_of_isContested
    {set : ConfigurationSet}
    (contested : set.IsContested) :
    set.uniqueAlternative?.isSome = false := by
  obtain ⟨first, firstMember, second, secondMember, differ⟩ := contested
  unfold uniqueAlternative?
  split
  · rfl
  · rename_i leading _
    split
    · rename_i same
      rw [Array.all_eq_true_iff_forall_mem] at same
      have isFirst := eq_of_beq (same first firstMember)
      have isSecond := eq_of_beq (same second secondMember)
      exact absurd (isFirst.trans isSecond.symm) differ
    · rfl

end ConfigurationSet

namespace Prediction

section Following

variable
  {setting : Setting}
  {begins : Bool}
  {store : StackStore}
  (shaped : setting.network.RuleShaped)
  (coherent : setting.network.Coherent)
  (plain : setting.network.Plain)
  (nonLooping : setting.network.NonLooping)

include shaped coherent plain nonLooping

/-- In full context several configurations are followed to where walks from them rest. -/
theorem reaches_each_iff
    {origins : List Configuration}
    (wellMade : store.WellMade)
    (fitting : ∀ origin ∈ origins, origin.Fits store true)
    {alternative state : Nat}
    {returns : List Nat} :
    let result :=
      origins.foldl (followFrom setting false begins)
        ⟨store, ConfigurationSet.empty true, ∅⟩
    result.found.Reaches result.store alternative state returns ↔
      (∃ origin ∈ origins, ∃ before steps,
        origin.alternative = alternative ∧ store.Holds false origin.stack before ∧
          setting.network.FreeWalk steps ⟨origin.state, before⟩ ⟨state, returns⟩) ∧
        setting.network.Rests ⟨state, returns⟩ := by
  constructor
  · intro reached
    let within (alternative : Nat) (place : Place) : Prop :=
      ∃ origin ∈ origins, ∃ before steps,
        origin.alternative = alternative ∧ store.Holds false origin.stack before ∧
          setting.network.FreeWalk steps ⟨origin.state, before⟩ place
    have closed : Closed setting.network false within := by
      refine ⟨?_, fun isFree => by cases isFree⟩
      rintro alternative first last ⟨origin, member, before, steps, same, holds, walk⟩ step
      exact ⟨origin, member, before, steps + 1, same, holds, walk.snoc step⟩
    have emptyFits := ConfigurationSet.Fits.empty wellMade true
    have follows :=
      @follows_each ⟨store, ConfigurationSet.empty true, ∅⟩ false setting begins shaped
        coherent plain origins emptyFits fitting
    have atOrigins :
        ∀ origin ∈ origins,
          ∀ {returns : List Nat},
            store.Holds false origin.stack returns →
              within origin.alternative ⟨origin.state, returns⟩ :=
      fun origin member _ holds => ⟨origin, member, _, 0, rfl, holds, .stay⟩
    rcases follows.only rfl closed atOrigins reached with ⟨_, member, _⟩ | isWithin
    · simp [ConfigurationSet.empty] at member
    · exact isWithin
  · rintro ⟨⟨origin, member, before, steps, rfl, holds, walk⟩, rests⟩
    exact @reaches_each setting begins shaped coherent plain nonLooping store true origins origin
      wellMade fitting member 0 steps before ⟨state, returns⟩ (fun isWild => by cases isWild) holds
      walk rests (fun isWild => by cases isWild)

end Following

/--
A configuration set in full context stands for where the alternatives of a decision come to rest
over tokens.
-/
structure IsExact
    (network : Network)
    (decisionState : Nat)
    (outer : List Nat)
    (types : List Int)
    (result : ConfigurationSet × StackStore) :
    Prop where
  fits : result.1.Fits result.2
  fullContext : result.1.fullContext = true
  reaches_iff :
    ∀ {alternative state : Nat} {returns : List Nat},
      result.1.Reaches result.2 alternative state returns ↔
        network.ComesTo decisionState outer types alternative ⟨state, returns⟩ ∧
          network.Rests ⟨state, returns⟩

/-- The first set of a decision made in rule invocations that return to the given states. -/
def contextStart
    (setting : Setting)
    (decisionState : Nat)
    (returnStates : List Nat)
    (store : StackStore) :
    ConfigurationSet × StackStore :=
  let (stack, store) := (StackStore.ofReturnStates returnStates).run store
  startSet setting decisionState stack true store

/--
The sets that simulating tokens with the real rule invocations leads to from a first one, while
several alternatives are left and none has finished.
-/
inductive Simulates
    (setting : Setting)
    (first : ConfigurationSet × StackStore) :
    List Int → ConfigurationSet × StackStore → Prop where
  | start
      (contested : first.1.IsContested) :
      Simulates setting first [] first
  | token
      {types : List Int}
      {type : Int}
      {before after : ConfigurationSet × StackStore}
      (earlier : Simulates setting first types before)
      (notFinished : before.1.anyStopped setting.network = false)
      (isToken : type ≠ endOfInput)
      (reaches : reachSet? setting before.1 type true before.2 = (some after.1, after.2))
      (contested : after.1.IsContested) :
      Simulates setting first (types ++ [type]) after

/-- Nothing is at the end of a rule where nothing has finished. -/
theorem finishedConfigurations_eq_nil
    {network : Network}
    {set : ConfigurationSet}
    (notFinished : set.anyStopped network = false)
    (symbol : Int)
    (fullContext : Bool) :
    finishedConfigurations network set symbol fullContext = [] := by
  unfold finishedConfigurations
  split
  · rw [List.filter_eq_nil_iff]
    intro configuration member stopped
    unfold ConfigurationSet.anyStopped at notFinished
    rw [Array.any_eq_false'] at notFinished
    exact notFinished configuration (Array.mem_toList_iff.mp member) stopped
  · rfl

/--
Where several alternatives are left and none has finished, a token leads to what is found by
following the configurations behind it.
-/
theorem followAll_of_reachSet?
    {setting : Setting}
    {set reached : ConfigurationSet}
    {store after : StackStore}
    {type : Int}
    (notFinished : set.anyStopped setting.network = false)
    (isToken : type ≠ endOfInput)
    (reaches : reachSet? setting set type true store = (some reached, after))
    (contested : reached.IsContested) :
    let moved := addAll (ConfigurationSet.empty true) store (moveOver setting.network set type)
    followAll setting false moved.1 moved.2 = (reached, after) := by
  have notEnd : (type == endOfInput) = false := beq_eq_false_iff_ne.mpr isToken
  have finished := finishedConfigurations_eq_nil notFinished type true
  have isFollowed : followedSet setting set type true store = (reached, after) := by
    rw [reachSet?_eq] at reaches
    simp only [finished, keptSet, notEnd, addAll, List.foldl_nil, ite_self, Prod.mk.injEq,
      Bool.false_eq_true, ↓reduceIte, Option.ite_none_left_eq_some, Option.some.injEq] at reaches
    exact Prod.ext reaches.1.2 reaches.2
  unfold followedSet at isFollowed
  simp only [notEnd] at isFollowed
  split at isFollowed
  · rename_i unique
    simp only [Bool.and_eq_true] at unique
    rw [isFollowed, ConfigurationSet.uniqueAlternative?_of_isContested contested] at unique
    cases unique.2
  · exact isFollowed

/-- The configurations behind a token stand for the places behind it. -/
theorem reaches_moveOver_iff
    {network : Network}
    {set : ConfigurationSet}
    {store : StackStore}
    {type : Int}
    (fits : set.Fits store)
    (isFull : set.fullContext = true)
    {alternative number : Nat}
    {returns : List Nat} :
    let moved := addAll (ConfigurationSet.empty true) store (moveOver network set type)
    moved.1.Fits moved.2 ∧ moved.1.fullContext = true ∧
      (moved.1.Reaches moved.2 alternative number returns ↔
        ∃ first : Place,
          set.Reaches store alternative first.state first.returns ∧
            network.TokenStep type first ⟨number, returns⟩) := by
  have fitting :
      ∀ configuration ∈ moveOver network set type, configuration.Fits store true := by
    intro behind member
    obtain ⟨configuration, isOld, edge, _, _, _, rfl⟩ := mem_moveOver_iff.mp member
    have isFit := fits.each configuration isOld
    exact ⟨isFit.valid, (fun isWild => by cases isWild), isFit.unguarded⟩
  have gains :=
    (ConfigurationSet.Fits.empty fits.wellMade true).gains_addAll (moveOver network set type)
      fitting
  refine ⟨gains.fits, gains.fullContext, ?_⟩
  constructor
  · intro reached
    rcases gains.only rfl reached with ⟨_, member, _⟩ | ⟨behind, member, rfl, rfl, holds⟩
    · simp [ConfigurationSet.empty] at member
    · obtain ⟨configuration, isOld, edge, inside, present, consumes, rfl⟩ :=
        mem_moveOver_iff.mp member
      refine ⟨⟨configuration.state, returns⟩, ⟨configuration, isOld, rfl, rfl, ?_⟩,
        .edge inside present consumes⟩
      rw [isFull]
      exact holds
  · rintro ⟨first, ⟨configuration, isOld, rfl, sameState, holds⟩, token⟩
    cases token with
    | @edge _ _ edge inside present consumes =>
        dsimp only at sameState holds
        subst sameState
        refine gains.gained ⟨_, mem_moveOver_iff.mpr
          ⟨configuration, isOld, edge, inside, present, consumes, rfl⟩, rfl, rfl, ?_⟩
        rw [isFull] at holds
        exact holds

section Exact

variable
  {setting : Setting}
  {store : StackStore}
  (shaped : setting.network.RuleShaped)
  (coherent : setting.network.Coherent)
  (plain : setting.network.Plain)
  (nonLooping : setting.network.NonLooping)

include shaped coherent plain nonLooping

/-- The first set of a decision is exact. -/
theorem isExact_startSet
    {decisionState : Nat}
    {stack : StackId}
    {outer : List Nat}
    (wellMade : store.WellMade)
    (valid : stack < store.nodes.size)
    (holds_iff : ∀ {returns : List Nat}, store.Holds false stack returns ↔ returns = outer) :
    IsExact setting.network decisionState outer []
      (startSet setting decisionState stack true store) := by
  have fitting :
      ∀ origin ∈ outsets setting.network decisionState stack, origin.Fits store true := by
    intro origin member
    obtain ⟨⟨edge, index⟩, _, rfl⟩ := List.mem_map.mp member
    exact ⟨valid, (fun isWild => by cases isWild), rfl⟩
  have follows :=
    @follows_each ⟨store, ConfigurationSet.empty true, ∅⟩ false setting true shaped coherent plain
      (outsets setting.network decisionState stack)
      (ConfigurationSet.Fits.empty wellMade true) fitting
  rw [startSet_eq]
  refine ⟨follows.fits, follows.fullContext, ?_⟩
  intro alternative state returns
  refine (reaches_each_iff shaped coherent plain nonLooping wellMade fitting).trans
    (and_congr_left fun _ => ?_)
  constructor
  · rintro ⟨origin, member, before, steps, rfl, holds, walk⟩
    obtain ⟨⟨edge, index⟩, isEdge, rfl⟩ := List.mem_map.mp member
    obtain rfl := holds_iff.mp holds
    exact ⟨index, edge, List.mem_zipIdx_iff_getElem?.mp isEdge, rfl, walk.reads .stay⟩
  · rintro ⟨index, edge, isEdge, rfl, reads⟩
    obtain ⟨steps, walk⟩ := reads.freeWalk
    have isOutset :
        Configuration.start edge.target (index + 1) stack ∈
          outsets setting.network decisionState stack := by
      refine List.mem_map.mpr ⟨(edge, index), ?_, rfl⟩
      exact List.mem_zipIdx_iff_getElem?.mpr isEdge
    exact ⟨_, isOutset, outer, steps, rfl, holds_iff.mpr rfl, walk⟩

/-- A token leads from an exact set that is contested and not finished to an exact set. -/
theorem IsExact.reachSet?
    {decisionState : Nat}
    {outer : List Nat}
    {types : List Int}
    {type : Int}
    {before after : ConfigurationSet × StackStore}
    (isExact : IsExact setting.network decisionState outer types before)
    (notFinished : before.1.anyStopped setting.network = false)
    (isToken : type ≠ endOfInput)
    (reaches :
      Prediction.reachSet? setting before.1 type true before.2 = (some after.1, after.2))
    (contested : after.1.IsContested) :
    IsExact setting.network decisionState outer (types ++ [type]) after := by
  have isFollowed := followAll_of_reachSet? notFinished isToken reaches contested
  have moves :=
    fun alternative number returns =>
      @reaches_moveOver_iff setting.network before.1 before.2 type isExact.fits
        isExact.fullContext alternative number returns
  dsimp only at isFollowed moves
  generalize
    addAll (ConfigurationSet.empty true) before.2 (moveOver setting.network before.1 type) =
      moved at isFollowed moves
  obtain ⟨movedFits, movedFull, _⟩ := moves 0 0 []
  have fitting : ∀ origin ∈ moved.1.configurations.toList, origin.Fits moved.2 true := by
    intro origin member
    rw [← movedFull]
    exact movedFits.each origin (Array.mem_toList_iff.mp member)
  have follows :=
    @follows_each ⟨moved.2, ConfigurationSet.empty true, ∅⟩ false setting false shaped coherent
      plain moved.1.configurations.toList
      (ConfigurationSet.Fits.empty movedFits.wellMade true) fitting
  rw [followAll_eq, movedFull] at isFollowed
  obtain ⟨reached, later⟩ := after
  rw [← isFollowed]
  refine ⟨follows.fits, follows.fullContext, ?_⟩
  intro alternative state returns
  refine (reaches_each_iff shaped coherent plain nonLooping movedFits.wellMade fitting).trans
    (and_congr_left fun _ => ?_)
  rw [Network.comesTo_snoc_iff shaped]
  constructor
  · rintro ⟨origin, member, before, steps, rfl, holds, walk⟩
    have reached : moved.1.Reaches moved.2 origin.alternative origin.state before := by
      refine ⟨origin, Array.mem_toList_iff.mp member, rfl, rfl, ?_⟩
      rw [movedFull]
      exact holds
    obtain ⟨first, wasReached, token⟩ := (moves _ _ _).2.2.mp reached
    exact ⟨first, _, steps, isExact.reaches_iff.mp wasReached, token, walk⟩
  · rintro ⟨first, behind, steps, cameTo, token, walk⟩
    have wasReached := isExact.reaches_iff.mpr cameTo
    obtain ⟨origin, member, same, sameState, holds⟩ := (moves _ _ _).2.2.mpr ⟨first, wasReached, token⟩
    rw [movedFull] at holds
    refine ⟨origin, Array.mem_toList_iff.mpr member, behind.returns, steps, same, holds, ?_⟩
    rw [sameState]
    exact walk

/-- Simulating tokens leads from an exact set to exact sets. -/
theorem Simulates.isExact
    {decisionState : Nat}
    {outer : List Nat}
    {types : List Int}
    {first last : ConfigurationSet × StackStore}
    (begins : IsExact setting.network decisionState outer [] first)
    (simulates : Simulates setting first types last) :
    IsExact setting.network decisionState outer types last := by
  induction simulates with
  | start => exact begins
  | token _ notFinished isToken reaches contested inductionHypothesis =>
      exact inductionHypothesis.reachSet? shaped coherent plain nonLooping notFinished isToken
        reaches contested

end Exact

/--
Simulating tokens with the real rule invocations is exact. Whatever was predicted before, a set
that it leads to while several alternatives are left stands for the places that walks of an
alternative over the same tokens come to rest at, and for no others.
-/
theorem reaches_iff_of_simulates
    {data : List Int}
    {setting : Setting}
    (decoded : Network.decode data = .ok setting.network)
    (shaped : setting.network.RuleShaped)
    (plain : setting.network.Plain)
    (nonLooping : setting.network.NonLooping)
    {cache : PredictionCache}
    (reachable : cache.Reachable setting.network)
    {decisionState : Nat}
    {returnStates : List Nat}
    {types : List Int}
    {last : ConfigurationSet × StackStore}
    (simulates :
      Simulates setting (contextStart setting decisionState returnStates cache.store) types
        last) :
    last.1.fullContext = true ∧
      ∀ (alternative state : Nat) (returns : List Nat),
        last.1.Reaches last.2 alternative state returns ↔
          setting.network.ComesTo decisionState returnStates.reverse types alternative
              ⟨state, returns⟩ ∧
            setting.network.Rests ⟨state, returns⟩ := by
  have coherent := Network.coherent_of_decode decoded
  have wellMade := (reachable.fits shaped coherent plain).wellMade
  have pushes := StackStore.pushes_ofReturnStates wellMade returnStates
  have holds_iff :
      ∀ {returns : List Nat},
        ((StackStore.ofReturnStates returnStates).run cache.store).2.Holds false
            ((StackStore.ofReturnStates returnStates).run cache.store).1 returns ↔
          returns = returnStates.reverse := by
    intro returns
    rw [pushes.holds_iff]
    simp [wellMade.holds_empty_iff]
  have begins :
      IsExact setting.network decisionState returnStates.reverse []
        (contextStart setting decisionState returnStates cache.store) :=
    isExact_startSet shaped coherent plain nonLooping pushes.wellMade pushes.valid holds_iff
  have isExact := simulates.isExact shaped coherent plain nonLooping begins
  exact ⟨isExact.fullContext, fun _ _ _ => isExact.reaches_iff⟩

namespace Pairs

/-- A parser of `s : t 'd'`, `t : a 'b' | a 'c'` and `a : 'a'`, where `t` decides at state 9. -/
def encoded : List Int :=
  [4, 1, 4, 17, 2, 0, 7, 0, 2, 1, 7, 1, 2, 2, 7, 2, 1, 0, 1, 0, 1, 0, 3, 1, 14, 1, 1, 1, 1, 1, 1,
    1, 1, 8, 1, 1, 2, 1, 2, 0, 0, 3, 0, 2, 4, 0, 0,
    15, 0, 6, 1, 0, 0, 0, 2, 9, 1, 0, 0, 0, 4, 15, 1, 0, 0, 0, 6, 7, 3, 2, 1, 0, 7, 8, 5, 4, 0, 0,
    8, 1, 1, 0, 0, 0, 9, 10, 1, 0, 0, 0, 9, 12, 1, 0, 0, 0, 10, 11, 3, 4, 2, 0, 11, 14, 5, 2, 0, 0,
    12, 13, 3, 4, 2, 0, 13, 14, 5, 3, 0, 0, 14, 3, 1, 0, 0, 0, 15, 16, 5, 1, 0, 0, 16, 5, 1, 0, 0, 0,
    1, 9]

/-- Predictions in the network of the encoding. -/
def setting : Setting where
  network := (Network.decode encoded).toOption.getD default
  precedenceRule := none
  precedence := 0

/-- How far each state is behind the start of `s`. -/
def rank (number : Nat) : Nat :=
  [0, 4, 2, 9, 5, 9, 1, 3, 3, 3, 4, 5, 4, 5, 6, 6, 7].getD number 0

/-- The set in which the decision of `t` begins, called from `s`. -/
def begun : ConfigurationSet × StackStore :=
  contextStart setting 9 [7] (PredictionCache.initial setting.network).store

/-- A pair whose first part passes a test has something there. -/
theorem exists_of_any
    {α β : Type}
    {pair : Option α × β}
    {test : α → Bool}
    (passes : pair.1.any test = true) :
    ∃ first second, pair = (some first, second) ∧ test first = true := by
  obtain ⟨optional, second⟩ := pair
  obtain ⟨first, rfl, holds⟩ := (Option.any_eq_true _ _).mp passes
  exact ⟨first, second, rfl, holds⟩

set_option maxRecDepth 20000 in
/-- Both alternatives begin with a token, and are still there behind `'a'`. -/
theorem exists_simulates :
    ∃ set after,
      reachSet? setting begun.1 1 true begun.2 = (some set, after) ∧
        Simulates setting begun [1] (set, after) := by
  have begunContested : begun.1.IsContested := of_decide_eq_true (by cbv)
  have notFinished : begun.1.anyStopped setting.network = false := by cbv
  have isContested :
      (reachSet? setting begun.1 1 true begun.2).1.any (fun set => decide set.IsContested) =
        true := by
    cbv
  obtain ⟨set, after, leads, contested⟩ := exists_of_any isContested
  exact ⟨set, after, leads,
    @Simulates.token setting begun [] 1 begun (set, after) (.start begunContested) notFinished
      (by decide) leads (of_decide_eq_true contested)⟩

/-- After `'a'` both alternatives are left, and the set stands for where each of them is. -/
theorem reaches_pairs :
    ∃ set after,
      reachSet? setting begun.1 1 true begun.2 = (some set, after) ∧
        ∀ (alternative state : Nat) (returns : List Nat),
          set.Reaches after alternative state returns ↔
            setting.network.ComesTo 9 [7] [1] alternative ⟨state, returns⟩ ∧
              setting.network.Rests ⟨state, returns⟩ := by
  have decoded : Network.decode encoded = .ok setting.network := by decide +kernel
  have shaped : setting.network.CompilerShaped :=
    Network.compilerShaped_of_checkShape (by decide +kernel)
  have plain : setting.network.Plain := Network.plain_of_checkPlain (by decide +kernel)
  have climbing :
      (List.range setting.network.states.size).all (setting.network.checkClimbing rank) = true := by
    decide +kernel
  have climbs : setting.network.Climbs rank := Network.climbs_of_checkClimbing rank climbing
  obtain ⟨set, after, leads, simulates⟩ := exists_simulates
  exact ⟨set, after, leads,
    (reaches_iff_of_simulates decoded shaped.toRuleShaped plain
      (climbs.acyclic.nonLooping shaped.toRuleShaped) .initial simulates).2⟩

end Pairs

end Prediction

end GrammarService
