import GrammarService.Proofs.Prediction.Automata
import GrammarService.Proofs.Prediction.ConfigurationSets
import GrammarService.Proofs.Prediction.Reachable
import GrammarService.Proofs.Prediction.Stages

namespace GrammarService

/-!
# Verdicts in remembered predictions

A state that a token leads to is stored with the verdict its configurations determine. A start
state is stored without one, and a set of configurations is stored once: a token that leads back
to the configurations of a start state leads to a state without a verdict. Nothing else goes
missing, and nothing wrong is ever stored.
-/

/-- Whether the verdict stored with a state is the one that its configurations determine. -/
def AutomatonState.CarriesVerdict
    (network : Network)
    (state : AutomatonState) :
    Prop :=
  state.verdict = Prediction.verdictOf? network state.configurations

namespace ConfigurationSet

/-- The keys tell whether all configurations are at the end of a rule. -/
theorem allStopped_iff_keys
    (set : ConfigurationSet)
    (network : Network) :
    set.allStopped network = true ↔
      ∀ key ∈ set.keys, (network.state key.state).kind = .ruleStop := by
  simp only [allStopped, Array.all_eq_true_iff_forall_mem, keys, List.mem_map,
    Array.mem_toList_iff, decide_eq_true_eq]
  constructor
  · rintro stopped _ ⟨configuration, member, rfl⟩
    exact stopped configuration member
  · intro stopped configuration member
    exact stopped _ ⟨configuration, member, rfl⟩

/-- Sets with the same keys are both at the ends of rules, or neither is. -/
theorem allStopped_congr
    {first second : ConfigurationSet}
    (sameKeys : first.keys = second.keys)
    (network : Network) :
    first.allStopped network = second.allStopped network := by
  rw [Bool.eq_iff_iff, allStopped_iff_keys, allStopped_iff_keys, sameKeys]

end ConfigurationSet

namespace Automaton

/--
The automaton's states are indexed by their keys, and each has the verdict its configurations
determine or is a start state without one. Tokens lead to states, and the end of the input leads
to the ends of rules.
-/
structure Annotated
    (network : Network)
    (automaton : Automaton) :
    Prop where
  indexed :
    ∀ {keys : List Configuration.Key} {number : Nat},
      automaton.index[keys]? = some number →
        ∃ state, automaton.states[number]? = some state ∧ state.configurations.keys = keys
  verdict :
    ∀ {number : Nat} {state : AutomatonState},
      automaton.states[number]? = some state →
        state.CarriesVerdict network ∨ state.verdict = none ∧ automaton.IsStart number
  leading :
    ∀ {number target : Nat} {symbol : Int},
      automaton.successor? number symbol = some (.state target) →
        ∃ state, automaton.states[target]? = some state ∧
          (symbol = endOfInput → state.configurations.allStopped network = true)

namespace Annotated

variable {network : Network} {automaton : Automaton}

/-- Nothing is wrong before the first prediction. -/
theorem ofInitial
    (network : Network)
    (decisionState : Nat) :
    Annotated network (Automaton.initial network decisionState) where
  indexed := by
    simp [Automaton.initial]
  verdict := by
    simp [Automaton.initial]
  leading := by
    simp [Automaton.initial, successor?]

/-- The index stays right when a state is added. -/
theorem indexed_addState
    (annotated : automaton.Annotated network)
    (set : ConfigurationSet)
    (verdict : Option Verdict)
    {keys : List Configuration.Key}
    {number : Nat}
    (isIndexed : (automaton.addState set verdict).2.index[keys]? = some number) :
    ∃ state, (automaton.addState set verdict).2.states[number]? = some state ∧
      state.configurations.keys = keys := by
  cases known : automaton.index[set.keys]? with
  | some _ =>
      rw [addState_of_known known] at isIndexed ⊢
      exact annotated.indexed isIndexed
  | none =>
      rw [addState_of_new known] at isIndexed ⊢
      simp only [Std.HashMap.getElem?_insert, beq_iff_eq] at isIndexed
      split at isIndexed
      · cases isIndexed
        exact ⟨⟨set, ∅, verdict⟩, by simp, by assumption⟩
      · obtain ⟨state, present, sameKeys⟩ := annotated.indexed isIndexed
        exact ⟨state, getElem?_push_of_some present, sameKeys⟩

/-- The state that stands for a set has the keys of the set. -/
theorem keys_addState
    (annotated : automaton.Annotated network)
    (set : ConfigurationSet)
    (verdict : Option Verdict) :
    ∃ state,
      (automaton.addState set verdict).2.states[(automaton.addState set verdict).1]? =
          some state ∧
        state.configurations.keys = set.keys := by
  cases known : automaton.index[set.keys]? with
  | some number =>
      rw [addState_of_known known]
      exact annotated.indexed known
  | none =>
      rw [addState_of_new known]
      exact ⟨⟨set, ∅, verdict⟩, by simp, rfl⟩

/-- Tokens still lead to the same states when a state is added. -/
theorem leading_addState
    (annotated : automaton.Annotated network)
    (set : ConfigurationSet)
    (verdict : Option Verdict)
    {number target : Nat}
    {symbol : Int}
    (leads :
      (automaton.addState set verdict).2.successor? number symbol =
        some (.state target)) :
    ∃ state, (automaton.addState set verdict).2.states[target]? = some state ∧
      (symbol = endOfInput → state.configurations.allStopped network = true) := by
  cases known : automaton.index[set.keys]? with
  | some _ =>
      rw [addState_of_known known] at leads ⊢
      exact annotated.leading leads
  | none =>
      rw [addState_of_new known] at leads ⊢
      have ledBefore :
          automaton.successor? number symbol = some (.state target) := by
        unfold successor? at leads ⊢
        rw [Array.getElem?_push] at leads
        by_cases isLast : number = automaton.states.size
        · simp [isLast] at leads
        · simpa only [isLast, ↓reduceIte] using leads
      obtain ⟨state, present, stopped⟩ := annotated.leading ledBefore
      exact ⟨state, getElem?_push_of_some present, stopped⟩

/-- A state added with its own verdict keeps the automaton annotated. -/
theorem addState
    (annotated : automaton.Annotated network)
    (set : ConfigurationSet) :
    Annotated network
      (automaton.addState set (Prediction.verdictOf? network set)).2 where
  indexed :=
    annotated.indexed_addState set _
  leading :=
    annotated.leading_addState set _
  verdict := by
    intro number state present
    cases known : automaton.index[set.keys]? with
    | some _ =>
        rw [addState_of_known known] at present ⊢
        exact annotated.verdict present
    | none =>
        rw [addState_of_new known] at present ⊢
        simp only [Array.getElem?_push] at present
        split at present
        · cases present
          exact .inl rfl
        · exact annotated.verdict present

/-- A state added as a start state keeps the automaton annotated, though it has no verdict. -/
theorem addStart
    (annotated : automaton.Annotated network)
    (set : ConfigurationSet)
    {precedence : Int}
    (missing : automaton.start? precedence = none) :
    Annotated network
      ((automaton.addState set none).2.setStart precedence
        (automaton.addState set none).1) where
  indexed := by
    intro keys number isIndexed
    rw [index_setStart] at isIndexed
    rw [states_setStart]
    exact annotated.indexed_addState set none isIndexed
  leading := by
    intro number target symbol leads
    rw [successor?_setStart] at leads
    rw [states_setStart]
    exact annotated.leading_addState set none leads
  verdict := by
    intro number state present
    rw [states_setStart] at present
    have stillMissing : (automaton.addState set none).2.start? precedence = none := by
      rwa [start?_addState]
    cases known : automaton.index[set.keys]? with
    | some _ =>
        rw [addState_of_known known] at present stillMissing ⊢
        rcases annotated.verdict present with own | ⟨noVerdict, isStart⟩
        · exact .inl own
        · exact .inr ⟨noVerdict, isStart.setStart missing _⟩
    | none =>
        have isNew := addState_of_new known none
        rw [isNew] at present stillMissing ⊢
        simp only [Array.getElem?_push] at present
        split at present
        · cases present
          subst number
          exact .inr ⟨rfl, isStart_setStart _ _ _⟩
        · rcases annotated.verdict present with own | ⟨noVerdict, isStart⟩
          · exact .inl own
          · refine .inr ⟨noVerdict, IsStart.setStart ?_ stillMissing _⟩
            exact isStart

/-- Recording where a token leads keeps the automaton annotated. -/
theorem setSuccessor
    (annotated : automaton.Annotated network)
    (number : Nat)
    {symbol : Int}
    {successor : Successor}
    (leadsTo :
      ∀ target, successor = .state target →
        ∃ state, automaton.states[target]? = some state ∧
          (symbol = endOfInput → state.configurations.allStopped network = true)) :
    Annotated network (automaton.setSuccessor number symbol successor) := by
  refine ⟨?_, ?_, ?_⟩
  · intro keys other isIndexed
    obtain ⟨state, present, sameKeys⟩ := annotated.indexed isIndexed
    obtain ⟨state', present', same⟩ := present_setSuccessor present number symbol successor
    exact ⟨state', present', same ▸ sameKeys⟩
  · intro other state present
    rw [getElem?_states_setSuccessor, Option.map_eq_some_iff] at present
    obtain ⟨before, wasPresent, rfl⟩ := present
    have own := annotated.verdict wasPresent
    split <;> exact own
  · intro other target read leads
    have ledTo :
        ∃ state, automaton.states[target]? = some state ∧
          (read = endOfInput → state.configurations.allStopped network = true) := by
      unfold successor? at leads
      rw [getElem?_states_setSuccessor] at leads
      cases wasPresent : automaton.states[other]? with
      | none =>
          simp [wasPresent] at leads
      | some before =>
          have ledBefore :
              before.successors[read]? = some (.state target) →
                automaton.successor? other read = some (.state target) := by
            intro led
            simp [successor?, wasPresent, led]
          simp only [wasPresent, Option.map_some] at leads
          split at leads
          · simp only [Std.HashMap.getElem?_insert, beq_iff_eq] at leads
            split at leads
            · rename_i isRead
              exact isRead ▸ leadsTo target (by simpa using leads)
            · exact annotated.leading (ledBefore leads)
          · exact annotated.leading (ledBefore leads)
    obtain ⟨state, present, isStopped⟩ := ledTo
    obtain ⟨state', present', same⟩ := present_setSuccessor present number symbol successor
    exact ⟨state', present', same ▸ isStopped⟩

end Annotated

end Automaton

namespace Prediction

variable {setting : Setting} {memory : Memory}

/-- Starting a prediction keeps the automaton annotated. -/
theorem annotated_startState
    (annotated : memory.automaton.Annotated setting.network)
    (missing : memory.automaton.start? setting.precedence = none) :
    (startState setting memory).2.automaton.Annotated setting.network := by
  simp only [startState, missing]
  exact annotated.addStart _ missing

/-- The state that stands for where a token leads is there, and at the end it has stopped. -/
theorem present_addState_of_reachSet?
    {store after : StackStore}
    {number : Nat}
    {symbol : Int}
    {set : ConfigurationSet}
    (annotated : memory.automaton.Annotated setting.network)
    (reaches :
      reachSet? setting (memory.automaton.configurationsOf number) symbol false store =
        (some set, after))
    (verdict : Option Verdict) :
    ∃ state,
      (memory.automaton.addState set verdict).2.states[
          (memory.automaton.addState set verdict).1]? = some state ∧
        (symbol = endOfInput → state.configurations.allStopped setting.network = true) := by
  obtain ⟨state, present, sameKeys⟩ := annotated.keys_addState set verdict
  refine ⟨state, present, ?_⟩
  rintro rfl
  rw [ConfigurationSet.allStopped_congr sameKeys]
  exact allStopped_of_reachSet?_endOfInput reaches

/-- Finding out where a token leads keeps the automaton annotated. -/
theorem annotated_computeSuccessor
    (annotated : memory.automaton.Annotated setting.network)
    (number : Nat)
    (symbol : Int) :
    (computeSuccessor setting memory number symbol).2.automaton.Annotated
      setting.network := by
  unfold computeSuccessor
  cases reaches :
      reachSet? setting (memory.automaton.configurationsOf number) symbol false
        memory.store with
  | mk reached after =>
      cases reached with
      | none =>
          exact annotated.setSuccessor number (by simp)
      | some set =>
          refine (annotated.addState set).setSuccessor number ?_
          intro target leads
          cases leads
          exact present_addState_of_reachSet? annotated reaches _

/-- The automaton is annotated at every stage of a prediction. -/
theorem annotated_of_course
    {σ : Type}
    [TokenSource σ]
    {tokens : TokenStream σ}
    {start : Nat}
    {stage : Stage σ}
    (annotated : memory.automaton.Annotated setting.network)
    (course : Stage.Course setting memory tokens start stage) :
    stage.memory.automaton.Annotated setting.network :=
  course.induction
    (fun memory => memory.automaton.Annotated setting.network)
    (fun _ annotated missing => annotated_startState annotated missing)
    (fun _ number symbol annotated _ => annotated_computeSuccessor annotated number symbol)
    annotated

/-- A remembered prediction keeps the automaton annotated. -/
theorem annotated_predictRemembered
    {σ : Type}
    [TokenSource σ]
    (annotated : memory.automaton.Annotated setting.network)
    (tokens : TokenStream σ)
    (start : Nat) :
    (predictRemembered setting memory tokens start).2.1.automaton.Annotated
      setting.network :=
  predictRemembered_induction
    (fun memory => memory.automaton.Annotated setting.network)
    (fun _ annotated missing => annotated_startState annotated missing)
    (fun _ number symbol annotated _ => annotated_computeSuccessor annotated number symbol)
    annotated tokens start

/-- Alternatives that are all at the ends of rules are unique or in conflict. -/
theorem isSome_verdictOf?_of_allStopped
    {network : Network}
    {set : ConfigurationSet}
    (stopped : set.allStopped network = true) :
    (verdictOf? network set).isSome = true := by
  unfold verdictOf?
  cases set.uniqueAlternative? with
  | some alternative => rfl
  | none => simp [isConflict, stopped]

/-- A token leads to a state that has its verdict, unless that is a start state without one. -/
theorem target_of_successor
    (annotated : memory.automaton.Annotated setting.network)
    {number target : Nat}
    {symbol : Int}
    {after : Memory}
    (leads : successor setting memory number symbol = (.state target, after)) :
    ∃ state, after.automaton.states[target]? = some state ∧
      (state.CarriesVerdict setting.network ∨
        state.verdict = none ∧ after.automaton.IsStart target) ∧
      (symbol = endOfInput → state.configurations.allStopped setting.network = true) := by
  unfold successor at leads
  cases recorded : memory.automaton.successor? number symbol with
  | some successor =>
      simp only [recorded, Prod.mk.injEq] at leads
      obtain ⟨rfl, rfl⟩ := leads
      obtain ⟨state, present, ends⟩ := annotated.leading recorded
      exact ⟨state, present, annotated.verdict present, ends⟩
  | none =>
      simp only [recorded] at leads
      have annotatedAfter := annotated_computeSuccessor annotated number symbol
      rw [leads] at annotatedAfter
      unfold computeSuccessor at leads
      cases reaches :
          reachSet? setting (memory.automaton.configurationsOf number) symbol false
            memory.store with
      | mk reached store =>
          cases reached with
          | none => simp [reaches] at leads
          | some set =>
              simp only [reaches, Prod.mk.injEq, Successor.state.injEq] at leads
              obtain ⟨rfl, rfl⟩ := leads
              obtain ⟨state, present, ends⟩ :=
                present_addState_of_reachSet? annotated reaches
                  (verdictOf? setting.network set)
              obtain ⟨state', present', same⟩ :=
                Automaton.present_setSuccessor present number symbol _
              exact ⟨state', present', annotatedAfter.verdict present', same ▸ ends⟩

/--
At the end of the input a prediction goes on only if it is led to a start state without a verdict.
-/
theorem Stage.goesOn_at_end_iff
    {σ : Type}
    [TokenSource σ]
    {stage : Stage σ}
    (annotated : stage.memory.automaton.Annotated setting.network)
    (atEnd : stage.symbol = endOfInput)
    (start : Nat) :
    (∃ next, stage.step setting start = .inr next) ↔
      ∃ target after,
        successor setting stage.memory stage.number stage.symbol = (.state target, after) ∧
          after.automaton.IsStart target ∧ after.automaton.verdictOf? target = none := by
  constructor
  · rintro ⟨next, goesOn⟩
    unfold Stage.step at goesOn
    cases leads : successor setting stage.memory stage.number stage.symbol with
    | mk leadsTo after =>
        cases leadsTo with
        | dead =>
            simp only [leads] at goesOn
            split at goesOn <;> cases goesOn
        | state target =>
            obtain ⟨state, present, own, ends⟩ := target_of_successor annotated leads
            have verdict : after.automaton.verdictOf? target = state.verdict := by
              simp [Automaton.verdictOf?, present]
            rcases own with carries | ⟨noVerdict, isStart⟩
            · obtain ⟨settled, isSettled⟩ :=
                Option.isSome_iff_exists.mp (isSome_verdictOf?_of_allStopped (ends atEnd))
              simp [leads, verdict, carries.trans isSettled] at goesOn
            · exact ⟨target, after, rfl, isStart, verdict.trans noVerdict⟩
  · rintro ⟨target, after, leads, _, noVerdict⟩
    exact ⟨stage.advance target after, by simp [Stage.step, leads, noVerdict]⟩

end Prediction

namespace PredictionCache.Reachable

open Prediction

variable {network : Network} {cache : PredictionCache} {decision : Nat} {automaton : Automaton}

/-- All automata of a reachable cache are annotated. -/
theorem annotated
    (reachable : cache.Reachable network)
    (present : cache.automata[decision]? = some automaton) :
    automaton.Annotated network :=
  reachable.automata_induction
    (fun automaton => automaton.Annotated network)
    (Automaton.Annotated.ofInitial network)
    (fun store automaton precedence tokens start annotated =>
      @annotated_predictRemembered (Parser.settingOf network automaton precedence)
        ⟨store, automaton⟩ _ _ annotated tokens start)
    present

/--
In a reachable cache, a state that a token leads to carries the verdict its configurations
determine, except exactly where it is a start state that was stored without the verdict. A
prediction settles at the end of the input, except exactly where that leads to such a state.
-/
theorem carriesVerdict_unless_start
    (reachable : cache.Reachable network)
    (present : cache.automata[decision]? = some automaton) :
    (∀ (number target : Nat) (symbol : Int),
      automaton.successor? number symbol = some (.state target) →
        ∃ state, automaton.states[target]? = some state ∧
          (state.CarriesVerdict network ↔
            ¬ (automaton.IsStart target ∧ state.verdict = none ∧
              (verdictOf? network state.configurations).isSome = true))) ∧
    ∀ {σ : Type} [TokenSource σ] (precedence : Int) (tokens : TokenStream σ) (start : Nat)
      (stage : Stage σ),
      Stage.Course (Parser.settingOf network automaton precedence) ⟨cache.store, automaton⟩
          tokens start stage →
        stage.symbol = endOfInput →
          ((∃ next,
              stage.step (Parser.settingOf network automaton precedence) start = .inr next) ↔
            ∃ target after,
              successor (Parser.settingOf network automaton precedence) stage.memory
                  stage.number stage.symbol = (.state target, after) ∧
                after.automaton.IsStart target ∧
                after.automaton.verdictOf? target = none) := by
  have annotated := reachable.annotated present
  constructor
  · intro number target symbol leads
    obtain ⟨state, present, _⟩ := annotated.leading leads
    refine ⟨state, present, ?_⟩
    constructor
    · rintro carries ⟨_, noVerdict, isSettled⟩
      rw [← carries, noVerdict] at isSettled
      cases isSettled
    · intro noException
      rcases annotated.verdict present with carries | ⟨noVerdict, isStart⟩
      · exact carries
      · cases settled : verdictOf? network state.configurations with
        | none => exact noVerdict.trans settled.symm
        | some _ => exact absurd ⟨isStart, noVerdict, by simp [settled]⟩ noException
  · intro σ _ precedence tokens start stage course atEnd
    exact Stage.goesOn_at_end_iff (annotated_of_course annotated course) atEnd start

end PredictionCache.Reachable

namespace OptionalNothing

open Prediction

/--
An encoded network for the rule `s : ( | ) B* C ;` where `B` is 1 and `C` is 2. Its first decision,
in state 2, is between two ways that go on alike.
-/
def encoded : List Int :=
  [4, 1, 2, 11, 2, 0, 7, 0, 3, 0, 4, 1, 0, 8, 0, 10, 0, 5, 0, 7, 8, 0, 9, 0, 12, 0, 8, 1, 0,
    0, 0, 1, 0, 0, 0,
    12,
    0, 2, 1, 0, 0, 0, 2, 3, 1, 0, 0, 0, 2, 4, 1, 0, 0, 0, 3, 4, 1, 0, 0, 0,
    4, 5, 1, 0, 0, 0, 5, 6, 1, 0, 0, 0, 5, 9, 1, 0, 0, 0, 6, 7, 5, 1, 0, 0,
    7, 8, 1, 0, 0, 0, 8, 5, 1, 0, 0, 0, 9, 10, 1, 0, 0, 0, 10, 1, 5, 2, 0, 0,
    2, 2, 5]

/-- The network itself. -/
def network : Network :=
  (Network.decode encoded).toOption.getD default

/-- Two tokens `B` and the end of the input. -/
def tokens : TokenStream ListedTokens :=
  (TokenStream.ofSource (ListedTokens.ofList [(1, "b", 0), (1, "b", 0)])).fill

/-- The first decision, predicted on these tokens before anything else. -/
def predicted : Outcome × Memory × TokenStream ListedTokens :=
  predictRemembered (Parser.settingOf network (Automaton.initial network 2) 0)
    ⟨StackStore.initial, Automaton.initial network 2⟩ tokens 0

/-- What the first prediction leaves behind. -/
def cache : PredictionCache :=
  (PredictionCache.initial network).remember 0 predicted.2.1

/-- The first decision comes first in the initial cache. -/
theorem automata_initial :
    (PredictionCache.initial network).automata[0]? = some (Automaton.initial network 2) := by
  cbv

/-- Some sequence of predictions leaves the cache behind. -/
theorem reachable_cache : cache.Reachable network :=
  .remembered 0 0 0 tokens .initial automata_initial

/-- The automaton of the first decision is in the cache. -/
theorem automata_cache : cache.automata[0]? = some predicted.2.1.automaton := by
  obtain ⟨inBounds, _⟩ := Array.getElem?_eq_some_iff.mp automata_initial
  exact Array.getElem?_setIfInBounds_self_of_lt inBounds

set_option maxRecDepth 20000 in
/-- What the prediction comes to, and where the first token leads. -/
theorem outcome_predicted :
    predicted.1 = .noViableAlternative 2 ∧
      predicted.2.1.automaton.successor? 0 1 = some (.state 0) ∧
      (predicted.2.1.automaton.states[0]?.map fun state =>
          (state.verdict, verdictOf? network state.configurations)) =
        some (none, some ⟨1, none, true⟩) := by
  cbv

/--
The first token leads from the start state back to it. It has no verdict, though its alternatives
are in conflict, and the prediction fails behind the second token.
-/
theorem start_lacks_verdict :
    Network.decode encoded = .ok network ∧
      cache.Reachable network ∧
      cache.automata[0]? = some predicted.2.1.automaton ∧
      predicted.2.1.automaton.successor? 0 1 = some (.state 0) ∧
      (predicted.2.1.automaton.states[0]?.map fun state =>
          (state.verdict, verdictOf? network state.configurations)) =
        some (none, some ⟨1, none, true⟩) ∧
      predicted.1 = .noViableAlternative 2 := by
  obtain ⟨outcome, leads, verdict⟩ := outcome_predicted
  exact ⟨by cbv, reachable_cache, automata_cache, leads, verdict, outcome⟩

/-- The condition is met by the cache that the prediction leaves behind. -/
theorem exception_in_cache :
    ∃ state, predicted.2.1.automaton.states[0]? = some state ∧
      (state.CarriesVerdict network ↔
        ¬ (predicted.2.1.automaton.IsStart 0 ∧ state.verdict = none ∧
          (verdictOf? network state.configurations).isSome = true)) :=
  (reachable_cache.carriesVerdict_unless_start automata_cache).1 0 0 1 outcome_predicted.2.1

end OptionalNothing

end GrammarService
