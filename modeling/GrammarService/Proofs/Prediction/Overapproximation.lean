import GrammarService.Proofs.Prediction.Simulation

namespace GrammarService

/-!
# Predictions without the real rule invocations lose nothing

A remembered prediction begins with the empty stack, which stands for any rule invocations at all.
It returns from a rule to wherever the rule is called from, and takes configurations with the empty
stack for all others. None of this loses an alternative: whatever the real rule invocations are, a
walk of an alternative over the same tokens comes to rest where the set has a configuration of that
alternative, with a stack that stands for the returns of the walk.
-/

namespace Network

variable {network : Network} {firstRule : Nat}

/-- A place that steps over a token is not at the end of a rule. -/
theorem TokenStep.counts
    {type : Int}
    {first second : Place}
    (token : network.TokenStep type first second) :
    network.Counts first.state := by
  cases token with
  | edge inside => exact fun stopped => absurd stopped inside

/-- An alternative begins in the rule invocation of its decision. -/
theorem Nested.alternative
    {decisionState index : Nat}
    {outer : List Nat}
    {edge : Edge}
    (shaped : network.RuleShaped)
    (inside : (network.state decisionState).kind ≠ .ruleStop)
    (several : 1 < (network.state decisionState).edges.length)
    (nested : network.Nested firstRule decisionState outer)
    (isEdge : (network.state decisionState).edges[index]? = some edge) :
    network.Nested firstRule edge.target outer := by
  have present := List.mem_of_getElem? isEdge
  have notCall : edge.isCall = false := by
    cases isCall : edge.isCall with
    | false => rfl
    | true =>
        have notFree : edge.isFree = false := by
          cases edge <;> first | rfl | cases isCall
        rw [shaped.alone present notFree] at several
        simp at several
  exact nested.congr (shaped.joins inside present notCall)

/-- Walks over tokens keep to real rule invocations. -/
theorem Nested.reads
    {types : List Int}
    {first last : Place}
    (shaped : network.RuleShaped)
    (coherent : network.Coherent)
    (rejoins : network.Rejoins)
    (nested : network.Nested firstRule first.state first.returns)
    (reads : network.Reads first types last) :
    network.Nested firstRule last.state last.returns := by
  induction reads with
  | stay => exact nested
  | free step _ inductionHypothesis =>
      exact inductionHypothesis (nested.freeStep shaped coherent rejoins step)
  | token step _ inductionHypothesis =>
      exact inductionHypothesis (nested.tokenStep shaped step)

end Network

namespace Prediction

/-- A token moves what has come to a place that consumes it. -/
theorem reaches_moveOver
    {network : Network}
    {set : ConfigurationSet}
    {store : StackStore}
    {type : Int}
    (fits : set.Fits store)
    {alternative : Nat}
    {first behind : Place}
    (reached : set.Reaches store alternative first.state first.returns)
    (token : network.TokenStep type first behind) :
    let moved := addAll (ConfigurationSet.empty set.fullContext) store (moveOver network set type)
    moved.1.Reaches moved.2 alternative behind.state behind.returns := by
  have fitting :
      ∀ configuration ∈ moveOver network set type,
        configuration.Fits store set.fullContext := by
    intro moved member
    obtain ⟨configuration, isOld, edge, _, _, _, rfl⟩ := mem_moveOver_iff.mp member
    have isFit := fits.each configuration isOld
    exact ⟨isFit.valid, isFit.bottomless, isFit.unguarded⟩
  have gains :=
    (ConfigurationSet.Fits.empty fits.wellMade set.fullContext).gains_addAll
      (moveOver network set type) fitting
  obtain ⟨configuration, isOld, rfl, sameState, holds⟩ := reached
  cases token with
  | @edge _ _ edge inside present consumes =>
      dsimp only at sameState holds
      subst sameState
      exact gains.gained ⟨_, mem_moveOver_iff.mpr
        ⟨configuration, isOld, edge, inside, present, consumes, rfl⟩, rfl, rfl, holds⟩

/--
Where several alternatives are left, a token leads a remembered set to what is found by following
the configurations behind it.
-/
theorem followAll_of_remembered
    {setting : Setting}
    {set reached : ConfigurationSet}
    {store after : StackStore}
    {type : Int}
    (isToken : type ≠ endOfInput)
    (reaches : reachSet? setting set type false store = (some reached, after))
    (contested : reached.IsContested) :
    let moved := addAll (ConfigurationSet.empty false) store (moveOver setting.network set type)
    followAll setting false moved.1 moved.2 = (reached, after) := by
  have notEnd : (type == endOfInput) = false := beq_eq_false_iff_ne.mpr isToken
  have finished : finishedConfigurations setting.network set type false = [] := by
    simp [finishedConfigurations, isToken]
  have isFollowed : followedSet setting set type false store = (reached, after) := by
    rw [reachSet?_eq] at reaches
    simp only [finished, keptSet, notEnd, addAll, List.foldl_nil, ite_self, Prod.mk.injEq,
      Bool.false_eq_true, ↓reduceIte, Option.ite_none_left_eq_some, Option.some.injEq] at reaches
    exact Prod.ext reaches.1.2 reaches.2
  unfold followedSet at isFollowed
  simp only [notEnd] at isFollowed
  split at isFollowed
  · rename_i unique
    simp only [Bool.and_eq_true] at unique
    rw [isFollowed, ConfigurationSet.uniqueAlternative?_of_isContested contested] at unique
    cases unique.2
  · exact isFollowed

/--
The sets that tokens lead to from a decision without the real rule invocations, while several
alternatives are left. Between two tokens other predictions may have added stacks to the store.
-/
inductive Remembers
    (setting : Setting)
    (decisionState : Nat)
    (store : StackStore) :
    List Int → ConfigurationSet × StackStore → Prop where
  | start
      (contested :
        (startSet setting decisionState StackId.empty false store).1.IsContested) :
      Remembers setting decisionState store []
        (startSet setting decisionState StackId.empty false store)
  | token
      {types : List Int}
      {type : Int}
      {before after : ConfigurationSet × StackStore}
      {later : StackStore}
      (earlier : Remembers setting decisionState store types before)
      (grows : before.2.Grows later)
      (wellMade : later.WellMade)
      (isToken : type ≠ endOfInput)
      (reaches : reachSet? setting before.1 type false later = (some after.1, after.2))
      (contested : after.1.IsContested) :
      Remembers setting decisionState store (types ++ [type]) after

/--
A set without the real rule invocations has every place where alternatives of a decision come to
rest over tokens and that counts, whatever the invocations are.
-/
structure Covers
    (network : Network)
    (decisionState : Nat)
    (outer : List Nat)
    (types : List Int)
    (result : ConfigurationSet × StackStore) :
    Prop where
  fits : result.1.Fits result.2
  isWild : result.1.fullContext = false
  reaches :
    ∀ {alternative : Nat} {place : Place},
      network.ComesTo decisionState outer types alternative place →
        network.Rests place →
          network.Counts place.state →
            result.1.Reaches result.2 alternative place.state place.returns

section Covering

variable
  {setting : Setting}
  {firstRule alternative steps : Nat}
  (shaped : setting.network.RuleShaped)
  (coherent : setting.network.Coherent)
  (rejoins : setting.network.Rejoins)
  (plain : setting.network.Plain)
  (nonLooping : setting.network.NonLooping)

include shaped coherent rejoins plain nonLooping

/-- Following remembered configurations finds every place that counts and that walks rest at. -/
theorem reaches_followAll
    {set : ConfigurationSet}
    {store : StackStore}
    (fits : set.Fits store)
    (isWild : set.fullContext = false)
    {first last : Place}
    (reached : set.Reaches store alternative first.state first.returns)
    (nested : setting.network.Nested firstRule first.state first.returns)
    (walk : setting.network.FreeWalk steps first last)
    (rests : setting.network.Rests last)
    (counts : setting.network.Counts last.state) :
    let found := followAll setting false set store
    found.1.Reaches found.2 alternative last.state last.returns := by
  obtain ⟨origin, member, rfl, sameState, holds⟩ := reached
  obtain ⟨state, returns⟩ := first
  dsimp only at sameState holds nested
  subst sameState
  have fitting : ∀ origin ∈ set.configurations.toList, origin.Fits store false :=
    fun origin member => isWild ▸ fits.each origin (Array.mem_toList_iff.mp member)
  rw [isWild] at holds
  rw [followAll_eq, isWild]
  exact @reaches_each setting false shaped coherent plain nonLooping store false
    set.configurations.toList origin fits.wellMade fitting (Array.mem_toList_iff.mpr member)
    firstRule steps returns last
    (fun _ _ _ walk => nested.freeWalk shaped coherent rejoins walk) holds walk rests
    fun _ => counts

/-- The first remembered set of a decision has every place that its alternatives rest at. -/
theorem reaches_startSet
    {decisionState : Nat}
    {outer : List Nat}
    {store : StackStore}
    (wellMade : store.WellMade)
    (inside : (setting.network.state decisionState).kind ≠ .ruleStop)
    (several : 1 < (setting.network.state decisionState).edges.length)
    (nested : setting.network.Nested firstRule decisionState outer)
    {last : Place}
    (comes : setting.network.ComesTo decisionState outer [] alternative last)
    (rests : setting.network.Rests last)
    (counts : setting.network.Counts last.state) :
    let first := startSet setting decisionState StackId.empty false store
    first.1.Reaches first.2 alternative last.state last.returns := by
  obtain ⟨index, edge, isEdge, rfl, reads⟩ := comes
  obtain ⟨steps, walk⟩ := reads.freeWalk
  have nestedBehind := nested.alternative shaped inside several isEdge
  have fitting :
      ∀ origin ∈ outsets setting.network decisionState StackId.empty, origin.Fits store false := by
    intro origin member
    obtain ⟨⟨edge, index⟩, _, rfl⟩ := List.mem_map.mp member
    exact ⟨wellMade.empty_valid, fun _ => .empty, rfl⟩
  have isOutset :
      Configuration.start edge.target (index + 1) StackId.empty ∈
        outsets setting.network decisionState StackId.empty :=
    List.mem_map.mpr ⟨(edge, index), List.mem_zipIdx_iff_getElem?.mpr isEdge, rfl⟩
  rw [startSet_eq]
  exact @reaches_each setting true shaped coherent plain nonLooping store false _
    (Configuration.start edge.target (index + 1) StackId.empty) wellMade fitting isOutset
    firstRule steps outer last
    (fun _ _ _ walk => nestedBehind.freeWalk shaped coherent rejoins walk)
    (.empty (.inl rfl)) walk rests fun _ => counts

/-- A token leads a remembered set to every place that walks over it rest at. -/
theorem reaches_reachSet?
    {set reached : ConfigurationSet}
    {store after : StackStore}
    {type : Int}
    (fits : set.Fits store)
    (isWild : set.fullContext = false)
    (isToken : type ≠ endOfInput)
    (reaches : reachSet? setting set type false store = (some reached, after))
    (contested : reached.IsContested)
    {first behind last : Place}
    (came : set.Reaches store alternative first.state first.returns)
    (nested : setting.network.Nested firstRule first.state first.returns)
    (token : setting.network.TokenStep type first behind)
    (walk : setting.network.FreeWalk steps behind last)
    (rests : setting.network.Rests last)
    (counts : setting.network.Counts last.state) :
    reached.Reaches after alternative last.state last.returns := by
  have isFollowed := followAll_of_remembered isToken reaches contested
  have moved := reaches_moveOver fits came token
  have movedMakes : Makes store false
      (addAll (ConfigurationSet.empty false) store (moveOver setting.network set type)) := by
    refine makes_addAll (ConfigurationSet.Fits.empty fits.wellMade false) ?_
    intro behind member
    obtain ⟨configuration, isOld, edge, _, _, _, rfl⟩ := mem_moveOver_iff.mp member
    have isFit := fits.each configuration isOld
    exact ⟨isFit.valid, fun _ => isFit.bottomless isWild, isFit.unguarded⟩
  rw [isWild] at moved
  dsimp only at isFollowed moved
  generalize
    addAll (ConfigurationSet.empty false) store (moveOver setting.network set type) = behindSet
    at isFollowed moved movedMakes
  have found :=
    reaches_followAll shaped coherent rejoins plain nonLooping movedMakes.fits
      movedMakes.fullContext moved (nested.tokenStep shaped token) walk rests counts
  dsimp only at found
  rw [isFollowed] at found
  exact found

/-- A token leads a set that covers the alternatives to one that covers them. -/
theorem Covers.reachSet?
    {decisionState : Nat}
    {outer : List Nat}
    {types : List Int}
    {type : Int}
    {before after : ConfigurationSet × StackStore}
    {store : StackStore}
    (inside : (setting.network.state decisionState).kind ≠ .ruleStop)
    (several : 1 < (setting.network.state decisionState).edges.length)
    (nested : setting.network.Nested firstRule decisionState outer)
    (covers : Covers setting.network decisionState outer types before)
    (grows : before.2.Grows store)
    (wellMade : store.WellMade)
    (isToken : type ≠ endOfInput)
    (reaches : Prediction.reachSet? setting before.1 type false store = (some after.1, after.2))
    (contested : after.1.IsContested) :
    Covers setting.network decisionState outer (types ++ [type]) after := by
  have fits := covers.fits.grows wellMade grows
  have made : Makes store false after := by
    have makes := makes_reachSet? shaped coherent plain fits type
    rw [covers.isWild, reaches] at makes
    exact makes.2.2 rfl
  refine ⟨made.fits, made.fullContext, ?_⟩
  intro alternative last comes rests counts
  obtain ⟨first, behind, steps, ⟨came, restsBefore⟩, token, walk⟩ :=
    (Network.comesTo_snoc_iff shaped).mp comes
  have countsBefore : setting.network.Counts first.state := token.counts
  have reached := (covers.fits.reaches_iff grows).mpr (covers.reaches came restsBefore countsBefore)
  obtain ⟨index, edge, isEdge, _, reads⟩ := came
  have nestedBefore :=
    (nested.alternative shaped inside several isEdge).reads shaped coherent rejoins reads
  exact reaches_reachSet? shaped coherent rejoins plain nonLooping fits covers.isWild isToken
    reaches contested reached nestedBefore token walk rests counts

/-- The sets of a remembered prediction cover the alternatives. -/
theorem Remembers.covers
    {decisionState : Nat}
    {outer : List Nat}
    {types : List Int}
    {store : StackStore}
    {last : ConfigurationSet × StackStore}
    (wellMade : store.WellMade)
    (inside : (setting.network.state decisionState).kind ≠ .ruleStop)
    (several : 1 < (setting.network.state decisionState).edges.length)
    (nested : setting.network.Nested firstRule decisionState outer)
    (remembers : Remembers setting decisionState store types last) :
    Covers setting.network decisionState outer types last := by
  induction remembers with
  | start =>
      have made :=
        @makes_startSet setting false store shaped coherent plain StackId.empty wellMade
          wellMade.empty_valid (fun _ => .empty) decisionState
      exact ⟨made.fits, made.fullContext, fun comes rests counts =>
        reaches_startSet shaped coherent rejoins plain nonLooping wellMade inside several nested
          comes rests counts⟩
  | token _ grows wellMade isToken reaches contested inductionHypothesis =>
      exact inductionHypothesis.reachSet? shaped coherent rejoins plain nonLooping inside several
        nested grows wellMade isToken reaches contested

end Covering

namespace TailRecursion

/-- A parser of `a : 'x' a | 'y' | 'y' 'z' | 'y' 'w'`, which decides at state 2. -/
def encoded : List Int :=
  [4, 1, 4, 11, 2, 0, 7, 0, 3, 0, 10, 1, 0, 1, 0, 1, 0, 1, 0, 1, 0, 1, 0, 1, 0, 8, 0,
    0, 0, 1, 0, 0, 0, 13,
    0, 2, 1, 0, 0, 0, 2, 3, 1, 0, 0, 0, 2, 5, 1, 0, 0, 0, 2, 6, 1, 0, 0, 0, 2, 8, 1, 0, 0, 0,
    3, 4, 5, 1, 0, 0, 4, 10, 3, 0, 0, 0, 5, 10, 5, 2, 0, 0, 6, 7, 5, 2, 0, 0, 7, 10, 5, 3, 0, 0,
    8, 9, 5, 2, 0, 0, 9, 10, 5, 4, 0, 0, 10, 1, 1, 0, 0, 0,
    1, 2]

/-- Predictions in the network of the encoding. -/
def setting : Setting where
  network := (Network.decode encoded).toOption.getD default
  precedenceRule := none
  precedence := 0

/-- How far each state is behind the call of `a`. -/
def rank (number : Nat) : Nat :=
  [1, 5, 2, 3, 0, 3, 3, 0, 3, 0, 4].getD number 0

/-- The store of a parser that has not predicted anything. -/
def store : StackStore :=
  (PredictionCache.initial setting.network).store

/-- The set in which the decision begins. -/
def begun : ConfigurationSet × StackStore :=
  startSet setting 2 StackId.empty false store

theorem decoded : Network.decode encoded = .ok setting.network := by decide +kernel

theorem compilerShaped : setting.network.CompilerShaped :=
  Network.compilerShaped_of_checkShape (by decide +kernel)

theorem plain : setting.network.Plain :=
  Network.plain_of_checkPlain (by decide +kernel)

theorem nonLooping : setting.network.NonLooping :=
  have climbing :
      (List.range setting.network.states.size).all (setting.network.checkClimbing rank) = true := by
    decide +kernel
  have climbs : setting.network.Climbs rank := Network.climbs_of_checkClimbing rank climbing
  climbs.acyclic.nonLooping compilerShaped.toRuleShaped

set_option maxRecDepth 20000 in
/-- After `'y'` the third and the fourth alternative are left, and the second is not. -/
theorem exists_remembers :
    ∃ last,
      Remembers setting 2 store [2] last ∧
        last.1.configurations.all (fun configuration => configuration.alternative != 2) = true := by
  have begunContested : begun.1.IsContested := of_decide_eq_true (by cbv)
  have passes :
      (reachSet? setting begun.1 2 false begun.2).1.any
          (fun set =>
            decide set.IsContested &&
              set.configurations.all (fun configuration => configuration.alternative != 2)) =
        true := by
    cbv
  obtain ⟨set, after, leads, passed⟩ := Pairs.exists_of_any passes
  rw [Bool.and_eq_true] at passed
  have coherent := Network.coherent_of_decode decoded
  have wellMade : store.WellMade :=
    (PredictionCache.Reachable.initial.fits compilerShaped.toRuleShaped coherent plain).wellMade
  have begunMade : Makes store false begun :=
    makes_startSet compilerShaped.toRuleShaped coherent plain wellMade wellMade.empty_valid
      (fun _ => .empty) 2
  exact ⟨(set, after),
    @Remembers.token setting 2 store [] 2 begun (set, after) begun.2 (.start begunContested)
      (.refl _) begunMade.fits.wellMade (by decide) leads (of_decide_eq_true passed.1), passed.2⟩

end TailRecursion

end Prediction

end GrammarService
