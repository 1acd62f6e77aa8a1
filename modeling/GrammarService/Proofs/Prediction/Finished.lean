import GrammarService.Proofs.Prediction.Overapproximation
import GrammarService.Proofs.Prediction.Repeating

namespace GrammarService

/-!
# Alternatives that have finished

Following free edges leads to no other alternative, and a token moves only what has not finished.
So what has finished is lost when another token is read, unless it is put back: at the end of the
input, and in full context where nothing else finishes with the token.
-/

namespace ConfigurationSet

variable {set : ConfigurationSet} {store : StackStore} {configuration : Configuration}

/-- All alternatives of a set have a property, and its index tells the truth. -/
structure Only
    (property : Nat → Prop)
    (set : ConfigurationSet) :
    Prop where
  each : ∀ configuration ∈ set.configurations, property configuration.alternative
  indexed :
    ∀ {key : Nat × Nat × Condition} {position : Nat},
      set.index[key]? = some position →
        ∃ configuration,
          set.configurations[position]? = some configuration ∧ indexKey configuration = key

/-- A set has a configuration of an alternative. -/
def HasAlternative
    (set : ConfigurationSet)
    (alternative : Nat) :
    Prop :=
  ∃ configuration ∈ set.configurations, configuration.alternative = alternative

theorem Only.empty
    (property : Nat → Prop)
    (fullContext : Bool) :
    (ConfigurationSet.empty fullContext).Only property where
  each := by simp [ConfigurationSet.empty]
  indexed := by simp [ConfigurationSet.empty]

theorem Only.mono
    {property wider : Nat → Prop}
    (only : set.Only property)
    (isWider : ∀ {alternative}, property alternative → wider alternative) :
    set.Only wider where
  each configuration member := isWider (only.each configuration member)
  indexed := only.indexed

/-- An alternative without the property has no configuration. -/
theorem Only.not_hasAlternative
    {property : Nat → Prop}
    (only : set.Only property)
    {alternative : Nat}
    (lacks : ¬ property alternative) :
    ¬ set.HasAlternative alternative := by
  rintro ⟨configuration, member, rfl⟩
  exact lacks (only.each configuration member)

/-- Some of the configurations of a set have the property too. -/
theorem Only.retain
    {property : Nat → Prop}
    (only : set.Only property)
    (keeps : Configuration → Bool) :
    (set.retain keeps).Only property where
  each configuration member := only.each configuration (mem_retain.mp member).1
  indexed := by
    intro key position indexed
    rcases getElem?_of_foldl_insert _ 0 ∅ indexed with isEmpty | ⟨configuration, isThere, _, isKey⟩
    · simp at isEmpty
    · rw [Nat.sub_zero, Array.getElem?_toList] at isThere
      exact ⟨configuration, isThere, isKey⟩

/-- Adding a configuration of an alternative that has the property keeps it. -/
theorem Only.add
    {property : Nat → Prop}
    (only : set.Only property)
    (has : property configuration.alternative)
    (store : StackStore) :
    ((set.add configuration).run store).1.Only property where
  each := forall_add (fun _ _ _ has => has) only.each has
  indexed := by
    intro key position indexed
    cases known : set.index[indexKey configuration]? with
    | none =>
        rw [add_of_new known] at indexed ⊢
        simp only [Std.HashMap.getElem?_insert] at indexed
        split at indexed
        · rename_i isKey
          cases indexed
          exact ⟨configuration, by simp, by simpa using isKey⟩
        · obtain ⟨present, isPresent, isKey⟩ := only.indexed indexed
          exact ⟨present, Automaton.getElem?_push_of_some isPresent, isKey⟩
    | some twinPosition =>
        rw [add_of_known known] at indexed ⊢
        obtain ⟨present, isPresent, isKey⟩ := only.indexed indexed
        simp only [Array.getElem?_modify, isPresent, Option.map_some]
        split
        · exact ⟨_, rfl, isKey⟩
        · exact ⟨_, rfl, isKey⟩

/-- The alternatives of a set are those it had and that of the configuration that was added. -/
theorem Only.hasAlternative_add
    {property : Nat → Prop}
    (only : set.Only property)
    (store : StackStore)
    {alternative : Nat}
    (has : set.HasAlternative alternative ∨ configuration.alternative = alternative) :
    ((set.add configuration).run store).1.HasAlternative alternative := by
  cases known : set.index[indexKey configuration]? with
  | none =>
      rw [add_of_new known]
      rcases has with ⟨present, member, isAlternative⟩ | isAlternative
      · exact ⟨present, Array.mem_push_of_mem _ member, isAlternative⟩
      · exact ⟨configuration, Array.mem_push_self, isAlternative⟩
  | some position =>
      rw [add_of_known known]
      obtain ⟨twin, isTwin, sameKey⟩ := only.indexed known
      simp only [indexKey, Prod.mk.injEq] at sameKey
      have kept :
          ∀ {place : Nat} {present : Configuration} (stack : StackId),
            set.configurations[place]? = some present →
              ∃ later ∈ set.configurations.modify position (·.joinedWith configuration stack),
                later.alternative = present.alternative := by
        intro place present stack isPresent
        refine ⟨if position = place then present.joinedWith configuration stack else present,
          ?_, ?_⟩
        · refine Array.mem_of_getElem? (?_ : _[place]? = _)
          rw [Array.getElem?_modify, isPresent]
          split <;> rfl
        · split <;> rfl
      rcases has with ⟨present, member, rfl⟩ | rfl
      · obtain ⟨place, isPresent⟩ := Array.mem_iff_getElem?.mp member
        exact kept _ isPresent
      · rw [← sameKey.2.1]
        exact kept _ isTwin

end ConfigurationSet

namespace Prediction

section Following

variable {setting : Setting} {property : Nat → Prop}

/-- An edge leaves the alternative alone. -/
theorem alternative_of_passEdge?
    {fullContext endIsFree collects inContext : Bool}
    {configuration behind : Configuration}
    {edge : Edge}
    (isBehind :
      passEdge? setting fullContext endIsFree collects inContext configuration edge =
        some behind) :
    behind.alternative = configuration.alternative := by
  rw [eq_of_passEdge? isBehind]

/-- Behind an edge the alternative is the one before it. -/
theorem alternative_visitBehind
    (visit : Visit)
    (state : Network.State)
    (edge : Edge)
    (collects : Bool)
    (behind : Configuration) :
    (visitBehind setting visit state edge collects behind).configuration.alternative =
      behind.alternative := by
  unfold visitBehind
  split <;> rfl

/-- The visits behind the edges of a configuration are about its alternative. -/
theorem alternative_visitsBehind
    {fullContext endIsFree : Bool}
    {visit : Visit}
    {state : Network.State}
    (edges : List Edge)
    (store : StackStore) :
    ∀ next ∈ ((visitsBehind setting fullContext endIsFree visit state edges).run store).1,
      next.configuration.alternative = visit.configuration.alternative := by
  induction edges generalizing store with
  | nil => exact fun _ impossible => absurd impossible List.not_mem_nil
  | cons edge edges inductionHypothesis =>
      intro next member
      cases isCall : edge.isCall with
      | true =>
          cases edge with
          | call target rule precedence follow =>
              rw [visitsBehind_call] at member
              rcases List.mem_cons.mp member with rfl | isRest
              · exact alternative_visitBehind _ _ _ _ _
              · exact inductionHypothesis _ next isRest
          | _ => cases isCall
      | false =>
          rw [visitsBehind_other isCall] at member
          rcases List.mem_append.mp member with isHere | isRest
          · rw [Option.mem_toList, Option.map_eq_some_iff] at isHere
            obtain ⟨behind, isBehind, rfl⟩ := isHere
            rw [alternative_visitBehind, alternative_of_passEdge? isBehind]
          · exact inductionHypothesis _ next isRest

/-- Adding a configuration of an alternative that has a property keeps it. -/
theorem only_add
    {search : Search}
    {configuration : Configuration}
    (only : search.found.Only property)
    (has : property configuration.alternative) :
    (search.add configuration).found.Only property :=
  only.add has search.store

section Limit

variable
  {limit : Nat}
  {endIsFree : Bool}
  (follows :
    ∀ {visit : Visit} {search : Search},
      search.found.Only property → property visit.configuration.alternative →
        (follow setting endIsFree limit visit search).found.Only property)

include follows

/-- Following several visits leads to no other alternatives. -/
theorem only_foldl_follow
    (visits : List Visit)
    {search : Search}
    (only : search.found.Only property)
    (have_ : ∀ visit ∈ visits, property visit.configuration.alternative) :
    (visits.foldl (fun search visit => follow setting endIsFree limit visit search)
      search).found.Only property := by
  refine List.foldlRecOn visits _ (motive := fun search : Search => search.found.Only property)
    only ?_
  exact fun search only visit member => follows only (have_ visit member)

theorem only_followEdges
    {visit : Visit}
    {search : Search}
    (only : search.found.Only property)
    (has : property visit.configuration.alternative) :
    (followEdges setting endIsFree limit visit search).found.Only property := by
  refine only_foldl_follow follows _ ?_ ?_
  · rw [expand_edgesToFollow]
    unfold keptFirst
    split
    · exact only
    · exact only_add only has
  · intro next member
    rw [expand_edgesToFollow] at member
    rw [alternative_visitsBehind _ _ next member]
    exact has

theorem only_followEntry
    {visit : Visit}
    {search : Search}
    {fullContext : Bool}
    (only : search.found.Only property)
    (has : property visit.configuration.alternative)
    (entry : StackEntry) :
    (followEntry setting endIsFree fullContext limit visit search entry).found.Only
      property := by
  unfold followEntry
  split
  · exact follows only has
  · split
    · exact only_add only has
    · exact only_followEdges follows only has

end Limit

/-- Following a configuration leads to no other alternative. -/
theorem only_follow
    {limit : Nat}
    {endIsFree : Bool}
    {visit : Visit}
    {search : Search}
    (only : search.found.Only property)
    (has : property visit.configuration.alternative) :
    (follow setting endIsFree limit visit search).found.Only property := by
  induction limit generalizing visit search with
  | zero => exact only
  | succ limit inductionHypothesis =>
      have marked : (search.mark visit).found.Only property := by
        rw [found_mark]
        exact only
      rw [follow_succ_entries]
      split
      · exact only
      · split
        · exact only_followEdges inductionHypothesis marked has
        · split
          · exact only_add marked has
          · refine List.foldlRecOn _ _
              (motive := fun search : Search => search.found.Only property) marked ?_
            exact fun _ only entry _ => only_followEntry inductionHypothesis only has entry

/-- Following the configurations of a set leads to no other alternatives. -/
theorem only_followAll
    {endIsFree : Bool}
    {set : ConfigurationSet}
    (only : set.Only property)
    (store : StackStore) :
    (followAll setting endIsFree set store).1.Only property := by
  rw [followAll_eq]
  refine List.foldlRecOn set.configurations.toList _
    (motive := fun search : Search => search.found.Only property) (.empty property _) ?_
  intro search onlyFound configuration member
  exact only_follow onlyFound (only.each configuration (Array.mem_toList_iff.mp member))

/-- Adding configurations of alternatives that have the property keeps it. -/
theorem only_addAll
    (added : List Configuration)
    {set : ConfigurationSet}
    (only : set.Only property)
    (has : ∀ configuration ∈ added, property configuration.alternative)
    (store : StackStore) :
    (addAll set store added).1.Only property := by
  induction added generalizing set store with
  | nil => exact only
  | cons head tail inductionHypothesis =>
      exact inductionHypothesis (only.add (has head List.mem_cons_self) store)
        (fun configuration member => has configuration (List.mem_cons_of_mem head member)) _

/-- A set has the alternatives of the configurations that are added to it. -/
theorem hasAlternative_addAll
    (added : List Configuration)
    {set : ConfigurationSet}
    (only : set.Only fun _ => True)
    (store : StackStore)
    {alternative : Nat}
    (has :
      set.HasAlternative alternative ∨
        ∃ configuration ∈ added, configuration.alternative = alternative) :
    (addAll set store added).1.HasAlternative alternative := by
  induction added generalizing set store with
  | nil => exact has.resolve_right (by simp)
  | cons head tail inductionHypothesis =>
      refine inductionHypothesis (only.add trivial store) _ ?_
      rcases has with isOld | ⟨configuration, member, isAlternative⟩
      · exact .inl (only.hasAlternative_add store (.inl isOld))
      · rcases List.mem_cons.mp member with rfl | isRest
        · exact .inl (only.hasAlternative_add store (.inr isAlternative))
        · exact .inr ⟨configuration, isRest, isAlternative⟩

/-- An alternative that has not finished everywhere. -/
def IsUnfinished
    (network : Network)
    (set : ConfigurationSet)
    (alternative : Nat) :
    Prop :=
  ∃ configuration ∈ set.configurations,
    configuration.alternative = alternative ∧
      (network.state configuration.state).kind ≠ .ruleStop

/-- What a token leads to is of alternatives that had not finished everywhere. -/
theorem only_keptSet
    (set : ConfigurationSet)
    (symbol : Int)
    (fullContext : Bool)
    (store : StackStore) :
    (keptSet setting.network symbol
        (followedSet setting set symbol fullContext store).1).Only
      (IsUnfinished setting.network set) := by
  have moved :
      (addAll (ConfigurationSet.empty fullContext) store
        (moveOver setting.network set symbol)).1.Only (IsUnfinished setting.network set) := by
    refine only_addAll _ (.empty _ _) ?_ store
    intro behind member
    obtain ⟨configuration, isThere, edge, inside, _, _, rfl⟩ := mem_moveOver_iff.mp member
    exact ⟨configuration, isThere, rfl, inside⟩
  have followed :
      (followedSet setting set symbol fullContext store).1.Only
        (IsUnfinished setting.network set) := by
    unfold followedSet
    dsimp only
    split
    · exact moved
    · exact only_followAll moved _
  unfold keptSet
  split
  · exact followed.retain _
  · exact followed

/--
An alternative that has finished everywhere has no configuration behind the next token, unless that
is the end of the input or the prediction is in full context. There it still has one, except where
another configuration finishes with the token in full context.
-/
theorem hasAlternative_reachSet?_iff
    {set reached : ConfigurationSet}
    {symbol : Int}
    {fullContext : Bool}
    {store after : StackStore}
    (reaches : reachSet? setting set symbol fullContext store = (some reached, after))
    {alternative : Nat}
    (present : set.HasAlternative alternative)
    (finished : ¬ IsUnfinished setting.network set alternative) :
    reached.HasAlternative alternative ↔
      if fullContext then
        (keptSet setting.network symbol
          (followedSet setting set symbol true store).1).anyStopped setting.network = false
      else
        symbol = endOfInput := by
  have only := @only_keptSet setting set symbol fullContext store
  have lost := only.not_hasAlternative finished
  have putBack :
      (fullContext || symbol == endOfInput) = true →
        (addAll
          (keptSet setting.network symbol
            (followedSet setting set symbol fullContext store).1)
          (followedSet setting set symbol fullContext store).2
          (finishedConfigurations setting.network set symbol fullContext)).1.HasAlternative
            alternative := by
    intro returns
    refine hasAlternative_addAll _ (only.mono fun _ => trivial) _ (.inr ?_)
    obtain ⟨configuration, member, isAlternative⟩ := present
    refine ⟨configuration, ?_, isAlternative⟩
    simp only [finishedConfigurations, returns, if_true, List.mem_filter, Array.mem_toList_iff,
      decide_eq_true_eq]
    refine ⟨member, ?_⟩
    by_contra inside
    exact finished ⟨configuration, member, isAlternative, inside⟩
  rw [reachSet?_eq] at reaches
  cases fullContext with
  | false =>
      simp only [Bool.not_false, Bool.true_or, ↓reduceIte, Prod.mk.injEq,
        Option.ite_none_left_eq_some, Option.some.injEq] at reaches
      obtain ⟨⟨_, rfl⟩, _⟩ := reaches
      simp only [Bool.false_eq_true, if_false]
      refine ⟨fun has => ?_, fun isEnd => putBack (by simp [isEnd])⟩
      by_contra isToken
      have nothing : finishedConfigurations setting.network set symbol false = [] := by
        simp [finishedConfigurations, isToken]
      rw [nothing] at has
      exact lost has
  | true =>
      simp only [if_true]
      cases stops :
        (keptSet setting.network symbol
          (followedSet setting set symbol true store).1).anyStopped setting.network with
      | false =>
          simp only [stops, Bool.not_true, Bool.not_false, Bool.or_true, ↓reduceIte,
            Prod.mk.injEq, Option.ite_none_left_eq_some, Option.some.injEq] at reaches
          obtain ⟨⟨_, rfl⟩, _⟩ := reaches
          exact ⟨fun _ => rfl, fun _ => putBack rfl⟩
      | true =>
          simp only [stops, Bool.not_true, Bool.or_self, Bool.false_eq_true, ↓reduceIte,
            Prod.mk.injEq, Option.ite_none_left_eq_some, Option.some.injEq] at reaches
          obtain ⟨⟨_, rfl⟩, _⟩ := reaches
          exact ⟨fun has => absurd has lost, fun impossible => by cases impossible⟩

end Following

namespace CommonPrefix

/-- The data of a parser for `s : 'a' | 'a' 'b' 'c'`, which decides at state 2. -/
def data : RecognizerData where
  literalNames := [none, some "'a'", some "'b'", some "'c'", some "'d'"]
  symbolicNames := []
  ruleNames := ["s"]
  channelNames := []
  modeNames := []
  encodedNetwork :=
    [4, 1, 4, 9, 2, 0, 7, 0, 3, 0, 8, 1, 0, 1, 0, 1, 0, 1, 0, 1, 0, 8, 0, 0, 0, 1, 0, 0, 0,
      9,
      0, 2, 1, 0, 0, 0, 2, 3, 1, 0, 0, 0, 2, 4, 1, 0, 0, 0, 3, 8, 5, 1, 0, 0, 4, 5, 5, 1, 0, 0,
      5, 6, 5, 2, 0, 0, 6, 7, 5, 3, 0, 0, 7, 8, 1, 0, 0, 0, 8, 1, 1, 0, 0, 0,
      1, 2]

/-- The grammar itself. -/
def grammar : ParserGrammar :=
  (ParserGrammar.ofData "CommonPrefix" data).toOption.getD default

/-- Predictions in the network of the grammar. -/
def setting : Setting where
  network := grammar.network
  precedenceRule := none
  precedence := 0

/-- How far each state is behind the beginning of the rule. -/
def rank (number : Nat) : Nat :=
  [0, 9, 1, 2, 2, 3, 4, 5, 6].getD number 0

/-- A parser at the beginning of `abd`. -/
def parser : Parser ListedTokens :=
  Parser.ofStream grammar
    (TokenStream.ofSource (ListedTokens.ofList [(1, "a", 0), (2, "b", 0), (4, "d", 0)]))

set_option maxRecDepth 20000 in
theorem isGrammar : ParserGrammar.ofData "CommonPrefix" data = .ok grammar := by cbv

theorem compilerShaped : grammar.network.CompilerShaped :=
  Network.compilerShaped_of_checkShape (by decide +kernel)

theorem plain : grammar.network.Plain :=
  Network.plain_of_checkPlain (by decide +kernel)

theorem nonLooping : grammar.network.NonLooping :=
  have climbing :
      (List.range grammar.network.states.size).all (grammar.network.checkClimbing rank) = true := by
    decide +kernel
  have climbs : grammar.network.Climbs rank := Network.climbs_of_checkClimbing rank climbing
  climbs.acyclic.nonLooping compilerShaped.toRuleShaped

/-- The set in which the decision begins, and the one that `'a'` leads to. -/
def begun : ConfigurationSet × StackStore :=
  startSet setting 2 StackId.empty false (PredictionCache.initial grammar.network).store

def afterA : ConfigurationSet × StackStore :=
  let reached := reachSet? setting begun.1 1 false begun.2
  (reached.1.getD begun.1, reached.2)

set_option maxRecDepth 20000 in
/-- The first alternative has finished behind `'a'`, and no configuration of it is left on `'b'`. -/
theorem finished_is_lost :
    afterA.1.HasAlternative 1 ∧ ¬ IsUnfinished setting.network afterA.1 1 ∧
      ∃ reached after,
        reachSet? setting afterA.1 2 false afterA.2 = (some reached, after) ∧
          ¬ reached.HasAlternative 1 := by
  have isThere : afterA.1.configurations.any (fun configuration => configuration.alternative == 1) =
      true := by
    cbv
  have isFinished :
      afterA.1.configurations.all (fun configuration =>
        configuration.alternative != 1 ||
          (setting.network.state configuration.state).kind = .ruleStop) = true := by
    cbv
  have goesOn : (reachSet? setting afterA.1 2 false afterA.2).1.any (fun _ => true) = true := by
    cbv
  rw [Array.any_eq_true'] at isThere
  rw [Array.all_eq_true_iff_forall_mem] at isFinished
  obtain ⟨configuration, member, isFirst⟩ := isThere
  have present : afterA.1.HasAlternative 1 := ⟨configuration, member, by simpa using isFirst⟩
  have finished : ¬ IsUnfinished setting.network afterA.1 1 := by
    rintro ⟨other, isMember, isAlternative, inside⟩
    have stopped := isFinished other isMember
    simp only [isAlternative, bne_self_eq_false, Bool.false_or, decide_eq_true_eq] at stopped
    exact inside stopped
  obtain ⟨reached, after, reaches, _⟩ := Pairs.exists_of_any goesOn
  refine ⟨present, finished, reached, after, reaches, fun has => ?_⟩
  exact absurd ((hasAlternative_reachSet?_iff reaches present finished).mp has) (by decide)

set_option maxRecDepth 20000 in
/--
The rule ends behind `'a'`, but a parser takes `'b'` as a sign of the second alternative, which the
token after it does not go on with. That the first alternative has finished was lost on `'b'`.
-/
theorem tail_is_missed :
    ParserGrammar.ofData "CommonPrefix" data = .ok parser.grammar ∧
      parser.grammar.network.CompilerShaped ∧ parser.grammar.network.Plain ∧
        parser.grammar.network.NonLooping ∧
          parser.grammar.network.Reads ⟨0, []⟩ [1] ⟨1, []⟩ ∧
            (parser.invoke "s").1 =
              .error
                (.syntaxErrors [⟨1, 2, "mismatched input 'd' expecting 'c'"⟩]) := by
  have start : (grammar.network.state 0).edges = [.epsilon 2 none] := by decide +kernel
  have choice : (grammar.network.state 2).edges = [.epsilon 3 none, .epsilon 4 none] := by
    decide +kernel
  have letter : (grammar.network.state 3).edges = [.atom 8 1] := by decide +kernel
  have behind : (grammar.network.state 8).edges = [.epsilon 1 none] := by decide +kernel
  have inside :
      ∀ number ∈ [0, 2, 3, 8], (grammar.network.state number).kind ≠ .ruleStop := by
    have notStopped :
        [0, 2, 3, 8].all (fun number => (grammar.network.state number).kind ≠ .ruleStop) =
          true := by
      decide +kernel
    simpa using notStopped
  refine ⟨isGrammar, compilerShaped, plain, nonLooping, ?_, by cbv⟩
  refine .free (@Network.FreeStep.edge _ 0 [] (.epsilon 2 none) (inside 0 (by simp)) ?_ rfl) ?_
  · exact start ▸ List.mem_singleton_self _
  refine .free (@Network.FreeStep.edge _ 2 [] (.epsilon 3 none) (inside 2 (by simp)) ?_ rfl) ?_
  · exact choice ▸ List.mem_cons_self
  refine .token (@Network.TokenStep.edge _ _ 3 [] (.atom 8 1) (inside 3 (by simp)) ?_ rfl) ?_
  · exact letter ▸ List.mem_singleton_self _
  refine .free (@Network.FreeStep.edge _ 8 [] (.epsilon 1 none) (inside 8 (by simp)) ?_ rfl)
    .stay
  exact behind ▸ List.mem_singleton_self _

end CommonPrefix

end Prediction

end GrammarService
