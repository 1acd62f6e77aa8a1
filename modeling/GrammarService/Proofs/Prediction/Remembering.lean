import GrammarService.Proofs.Prediction.Automata
import GrammarService.Proofs.Prediction.Reachable
import GrammarService.Proofs.Prediction.Repeating
import GrammarService.Proofs.Prediction.Stages

namespace GrammarService

/-!
# Predictions are remembered

The automaton of a decision only grows, and a state once added never changes but for the tokens
that it learns about. So a prediction that is repeated, at once or after any others, finds every
state it went through and every successor that it found out the first time. It comes to the same
outcome and nothing is added.
-/

namespace Automaton

variable {automaton after : Automaton} {store : StackStore}

/--
The stacks of an automaton's states are in a store, and every state that it refers to is there.
-/
structure IsIn
    (store : StackStore)
    (automaton : Automaton) :
    Prop where
  sets :
    ∀ {number : Nat} {state : AutomatonState},
      automaton.states[number]? = some state → state.configurations.IsIn store
  indexed :
    ∀ {keys : List Configuration.Key} {number : Nat},
      automaton.index[keys]? = some number → number < automaton.states.size
  started :
    ∀ {precedence : Int} {number : Nat},
      automaton.start? precedence = some number → number < automaton.states.size
  leading :
    ∀ {number target : Nat} {symbol : Int},
      automaton.successor? number symbol = some (.state target) →
        target < automaton.states.size

/-- Another automaton of the decision has all states, with all that is known of them. -/
structure Extends (automaton after : Automaton) : Prop where
  decisionState : after.decisionState = automaton.decisionState
  byPrecedence : after.byPrecedence = automaton.byPrecedence
  kept :
    ∀ {number : Nat} {state : AutomatonState},
      automaton.states[number]? = some state →
        ∃ later, after.states[number]? = some later ∧
          later.configurations = state.configurations ∧ later.verdict = state.verdict ∧
            ∀ {symbol : Int} {successor : Successor},
              state.successors[symbol]? = some successor →
                later.successors[symbol]? = some successor
  started :
    ∀ {precedence : Int} {number : Nat},
      automaton.start? precedence = some number → after.start? precedence = some number

namespace Extends

theorem refl (automaton : Automaton) : automaton.Extends automaton where
  decisionState := rfl
  byPrecedence := rfl
  kept present := ⟨_, present, rfl, rfl, id⟩
  started := id

theorem trans
    {last : Automaton}
    (earlier : automaton.Extends after)
    (later : after.Extends last) :
    automaton.Extends last where
  decisionState := later.decisionState.trans earlier.decisionState
  byPrecedence := later.byPrecedence.trans earlier.byPrecedence
  kept present := by
    obtain ⟨between, isBetween, sameSet, sameVerdict, known⟩ := earlier.kept present
    obtain ⟨state, isLast, sameSet', sameVerdict', known'⟩ := later.kept isBetween
    exact ⟨state, isLast, sameSet'.trans sameSet, sameVerdict'.trans sameVerdict,
      fun isKnown => known' (known isKnown)⟩
  started known := later.started (earlier.started known)

variable (extension : automaton.Extends after) {number : Nat}

include extension

theorem valid
    (valid : number < automaton.states.size) :
    number < after.states.size := by
  obtain ⟨_, present, _⟩ := extension.kept (Array.getElem?_eq_getElem valid)
  exact (Array.getElem?_eq_some_iff.mp present).1

theorem configurationsOf
    (valid : number < automaton.states.size) :
    after.configurationsOf number = automaton.configurationsOf number := by
  have present := Array.getElem?_eq_getElem valid
  obtain ⟨later, isLater, sameSet, _⟩ := extension.kept present
  simp only [Automaton.configurationsOf, present, isLater, sameSet]

theorem verdictOf?
    (valid : number < automaton.states.size) :
    after.verdictOf? number = automaton.verdictOf? number := by
  have present := Array.getElem?_eq_getElem valid
  obtain ⟨later, isLater, _, sameVerdict, _⟩ := extension.kept present
  simp only [Automaton.verdictOf?, present, isLater, sameVerdict]

theorem successor?
    {symbol : Int}
    {successor : Successor}
    (known : automaton.successor? number symbol = some successor) :
    after.successor? number symbol = some successor := by
  unfold Automaton.successor? at known ⊢
  cases present : automaton.states[number]? with
  | none => simp [present] at known
  | some state =>
      obtain ⟨later, isLater, _, _, keeps⟩ := extension.kept present
      simp only [present] at known
      simp only [isLater, keeps known]

end Extends

/-- Adding a state extends an automaton. -/
theorem extends_addState
    (automaton : Automaton)
    (set : ConfigurationSet)
    (verdict : Option Verdict) :
    automaton.Extends (automaton.addState set verdict).2 := by
  cases known : automaton.index[set.keys]? with
  | some number =>
      rw [addState_of_known known]
      exact .refl automaton
  | none =>
      rw [addState_of_new known]
      exact {
        decisionState := rfl
        byPrecedence := rfl
        kept := fun present => ⟨_, getElem?_push_of_some present, rfl, rfl, id⟩
        started := id }

/-- Nothing is known of a state when it is added. -/
theorem successor?_addState
    (automaton : Automaton)
    (set : ConfigurationSet)
    (verdict : Option Verdict)
    (number : Nat)
    (symbol : Int) :
    (automaton.addState set verdict).2.successor? number symbol =
      automaton.successor? number symbol := by
  cases known : automaton.index[set.keys]? with
  | some other => rw [addState_of_known known]
  | none =>
      rw [addState_of_new known]
      by_cases isLast : number = automaton.states.size
      · simp [successor?, isLast]
      · simp [successor?, Array.getElem?_push, isLast]

/-- Recording a start that was missing extends an automaton. -/
theorem extends_setStart
    {precedence : Int}
    (missing : automaton.start? precedence = none)
    (number : Nat) :
    automaton.Extends (automaton.setStart precedence number) where
  decisionState := by unfold setStart; split <;> rfl
  byPrecedence := by unfold setStart; split <;> rfl
  kept present := ⟨_, by rw [states_setStart]; exact present, rfl, rfl, id⟩
  started := by
    intro other known isKnown
    unfold start? at missing isKnown
    unfold setStart start?
    by_cases byPrecedence : automaton.byPrecedence = true
    · simp only [byPrecedence, if_true] at missing isKnown ⊢
      rw [Std.HashMap.getElem?_insert]
      split
      · rename_i same
        rw [← eq_of_beq same, missing] at isKnown
        cases isKnown
      · exact isKnown
    · simp only [byPrecedence, Bool.false_eq_true, if_false] at missing isKnown ⊢
      rw [missing] at isKnown
      cases isKnown

/-- A start that was recorded is found. -/
theorem start?_setStart
    (automaton : Automaton)
    (precedence : Int)
    (number : Nat) :
    (automaton.setStart precedence number).start? precedence = some number := by
  unfold setStart start?
  by_cases byPrecedence : automaton.byPrecedence = true
  · simp [byPrecedence]
  · simp [byPrecedence]

/-- Remembering a successor that was not known extends an automaton. -/
theorem extends_setSuccessor
    {number : Nat}
    {symbol : Int}
    (missing : automaton.successor? number symbol = none)
    (successor : Successor) :
    automaton.Extends (automaton.setSuccessor number symbol successor) where
  decisionState := rfl
  byPrecedence := rfl
  kept := by
    intro other state present
    rw [getElem?_states_setSuccessor, present]
    refine ⟨_, rfl, ?_⟩
    dsimp only
    split
    · rename_i same
      subst same
      refine ⟨rfl, rfl, ?_⟩
      intro another known isKnown
      rw [Std.HashMap.getElem?_insert]
      split
      · rename_i isSymbol
        simp only [successor?, present] at missing
        rw [← eq_of_beq isSymbol, missing] at isKnown
        cases isKnown
      · exact isKnown
    · exact ⟨rfl, rfl, id⟩
  started := id

/-- A successor that was remembered for a state is known. -/
theorem successor?_setSuccessor
    {number : Nat}
    (valid : number < automaton.states.size)
    (symbol : Int)
    (successor : Successor) :
    (automaton.setSuccessor number symbol successor).successor? number symbol =
      some successor := by
  have present := Array.getElem?_eq_getElem valid
  simp [successor?, getElem?_states_setSuccessor, present]

namespace IsIn

variable (isIn : automaton.IsIn store)

include isIn

theorem grows
    {larger : StackStore}
    (grows : store.Grows larger) :
    automaton.IsIn larger where
  sets present := (isIn.sets present).grows grows
  indexed := isIn.indexed
  started := isIn.started
  leading := isIn.leading

theorem configurationsOf (number : Nat) : (automaton.configurationsOf number).IsIn store := by
  unfold Automaton.configurationsOf
  split
  · rename_i present
    exact isIn.sets present
  · exact .empty store false

/-- A state can be added for a set whose stacks are in the store. -/
theorem addState
    {set : ConfigurationSet}
    (setIsIn : set.IsIn store)
    (verdict : Option Verdict) :
    (automaton.addState set verdict).2.IsIn store ∧
      (automaton.addState set verdict).1 < (automaton.addState set verdict).2.states.size := by
  cases known : automaton.index[set.keys]? with
  | some number =>
      rw [addState_of_known known]
      exact ⟨isIn, isIn.indexed known⟩
  | none =>
      have isAdded := addState_of_new known verdict
      rw [isAdded]
      refine ⟨⟨?_, ?_, ?_, ?_⟩, ?_⟩
      · intro number state present
        rw [Array.getElem?_push] at present
        split at present
        · cases present
          exact setIsIn
        · exact isIn.sets present
      · intro keys number isIndexed
        rw [Std.HashMap.getElem?_insert] at isIndexed
        rw [Array.size_push]
        split at isIndexed
        · cases isIndexed
          exact Nat.lt_succ_self _
        · exact Nat.lt_succ_of_lt (isIn.indexed isIndexed)
      · intro precedence number isStart
        rw [Array.size_push]
        exact Nat.lt_succ_of_lt (isIn.started isStart)
      · intro number target symbol leads
        rw [Array.size_push]
        have isOld := successor?_addState automaton set verdict number symbol
        rw [isAdded] at isOld
        rw [isOld] at leads
        exact Nat.lt_succ_of_lt (isIn.leading leads)
      · rw [Array.size_push]
        exact Nat.lt_succ_self _

/-- A start can be recorded that is a state of the automaton. -/
theorem setStart
    {number : Nat}
    (valid : number < automaton.states.size)
    (precedence : Int) :
    (automaton.setStart precedence number).IsIn store where
  sets present := isIn.sets (by rwa [states_setStart] at present)
  indexed isIndexed := by
    rw [index_setStart] at isIndexed
    rw [states_setStart]
    exact isIn.indexed isIndexed
  started := by
    intro other known isKnown
    rw [states_setStart]
    unfold Automaton.setStart start? at isKnown
    by_cases byPrecedence : automaton.byPrecedence = true
    · simp only [byPrecedence, if_true, Std.HashMap.getElem?_insert] at isKnown
      split at isKnown
      · cases isKnown
        exact valid
      · exact @IsIn.started _ _ isIn other known (by simpa [start?, byPrecedence] using isKnown)
    · simp only [byPrecedence, Bool.false_eq_true, if_false] at isKnown
      cases isKnown
      exact valid
  leading leads := by
    rw [successor?_setStart] at leads
    rw [states_setStart]
    exact isIn.leading leads

/-- A successor can be remembered that is a state of the automaton. -/
theorem setSuccessor
    {successor : Successor}
    (valid : ∀ target, successor = .state target → target < automaton.states.size)
    (number : Nat)
    (symbol : Int) :
    (automaton.setSuccessor number symbol successor).IsIn store where
  sets := by
    intro other state present
    rw [getElem?_states_setSuccessor] at present
    obtain ⟨before, isBefore, rfl⟩ := Option.map_eq_some_iff.mp present
    have beforeIsIn := isIn.sets isBefore
    split
    · exact beforeIsIn
    · exact beforeIsIn
  indexed isIndexed := by
    rw [Automaton.setSuccessor, Array.size_modify]
    exact isIn.indexed isIndexed
  started isStart := by
    rw [Automaton.setSuccessor, Array.size_modify]
    exact isIn.started isStart
  leading := by
    intro other target another leads
    rw [Automaton.setSuccessor, Array.size_modify]
    simp only [successor?, getElem?_states_setSuccessor] at leads
    cases present : automaton.states[other]? with
    | none => simp [present] at leads
    | some state =>
        have old :
            ∀ {known : Int},
              state.successors[known]? = some (.state target) →
                target < automaton.states.size := by
          intro known isKnown
          exact @IsIn.leading _ _ isIn other target known (by simp [successor?, present, isKnown])
        simp only [present, Option.map_some] at leads
        split at leads
        · rw [Std.HashMap.getElem?_insert] at leads
          split at leads
          · exact valid target (Option.some.inj leads)
          · exact old leads
        · exact old leads

end IsIn

end Automaton

namespace Prediction

namespace Memory

/-- A memory's store is well made, and its automaton refers to what is there. -/
structure Holds (memory : Memory) : Prop where
  wellMade : memory.store.WellMade
  isIn : memory.automaton.IsIn memory.store

/-- All that a memory has and remembers is in another one too. -/
structure Extends (memory after : Memory) : Prop where
  store : memory.store.Extends after.store
  automaton : memory.automaton.Extends after.automaton

namespace Extends

variable {memory after : Memory}

theorem refl (memory : Memory) : memory.Extends memory where
  store := .refl _
  automaton := .refl _

theorem trans
    {last : Memory}
    (earlier : memory.Extends after)
    (later : after.Extends last) :
    memory.Extends last where
  store := earlier.store.trans later.store
  automaton := earlier.automaton.trans later.automaton

end Extends

end Memory

/-- The set that predictions of a memory's decision start with. -/
def beginSet
    (setting : Setting)
    (memory : Memory) :
    ConfigurationSet × StackStore :=
  let started :=
    startSet setting memory.automaton.decisionState StackId.empty false memory.store
  if memory.automaton.byPrecedence then
    filterByPrecedence setting started.1 started.2
  else
    started

/-- Where no start is recorded the first set is added as a state and recorded. -/
theorem startState_of_missing
    {setting : Setting}
    {memory : Memory}
    (missing : memory.automaton.start? setting.precedence = none) :
    startState setting memory =
      let first := beginSet setting memory
      let added := memory.automaton.addState first.1 none
      (added.1, ⟨first.2, added.2.setStart setting.precedence added.1⟩) := by
  simp only [startState, missing, beginSet]

section Memories

variable {setting : Setting} {memory : Memory}

/-- A prediction starts in a state that is recorded, and the memory has only been extended. -/
structure Starts
    (setting : Setting)
    (memory : Memory) :
    Prop where
  holds : (startState setting memory).2.Holds
  extension : memory.Extends (startState setting memory).2
  valid :
    (startState setting memory).1 < (startState setting memory).2.automaton.states.size
  recorded :
    (startState setting memory).2.automaton.start? setting.precedence =
      some (startState setting memory).1

/-- Computing the first set of a memory's decision can be repeated. -/
theorem Memory.Holds.repeats_beginSet
    (setting : Setting)
    (holds : memory.Holds) :
    StackStore.Repeats ConfigurationSet.IsIn
      (fun store => beginSet setting { memory with store := store }) memory.store := by
  have starts :=
    repeats_startSet setting memory.automaton.decisionState false holds.wellMade
      holds.wellMade.empty_valid
  exact starts.bind
    (fun started store =>
      if memory.automaton.byPrecedence then
        filterByPrecedence setting started store
      else
        (started, store))
    (.ite (fun _ => repeats_filterByPrecedence setting starts.wellMade starts.valid)
      (fun _ => .pure starts.wellMade starts.valid))

theorem Memory.Holds.starts (holds : memory.Holds) : Starts setting memory := by
  cases known : memory.automaton.start? setting.precedence with
  | some number =>
      have isRun : startState setting memory = (number, memory) := by
        simp only [startState, known]
      refine ⟨?_, ?_, ?_, ?_⟩ <;> rw [isRun]
      · exact holds
      · exact .refl memory
      · exact holds.isIn.started known
      · exact known
  | none =>
      have firsts := holds.repeats_beginSet setting
      have isRun := startState_of_missing known
      have added :=
        (holds.isIn.grows firsts.extension.toGrows).addState firsts.valid none
      have stillMissing :=
        Automaton.start?_addState memory.automaton (beginSet setting memory).1 none
          setting.precedence
      refine ⟨?_, ?_, ?_, ?_⟩ <;> rw [isRun]
      · exact ⟨firsts.wellMade, added.1.setStart added.2 setting.precedence⟩
      · exact ⟨firsts.extension, (Automaton.extends_addState _ _ _).trans
          (Automaton.extends_setStart (stillMissing.trans known) _)⟩
      · rw [Automaton.states_setStart]
        exact added.2
      · exact Automaton.start?_setStart _ _ _

/-- A start that was recorded is found again. -/
theorem startState_of_recorded
    {number : Nat}
    (recorded : memory.automaton.start? setting.precedence = some number) :
    startState setting memory = (number, memory) := by
  simp only [startState, recorded]

/-- A successor is known once it was looked for, and the memory has only been extended. -/
structure Succeeds
    (setting : Setting)
    (memory : Memory)
    (number : Nat)
    (symbol : Int) :
    Prop where
  holds : (successor setting memory number symbol).2.Holds
  extension : memory.Extends (successor setting memory number symbol).2
  valid :
    ∀ {target : Nat},
      (successor setting memory number symbol).1 = .state target →
        target < (successor setting memory number symbol).2.automaton.states.size
  known :
    (successor setting memory number symbol).2.automaton.successor? number symbol =
      some (successor setting memory number symbol).1

/-- A successor that is known is found. -/
theorem successor_of_known
    {number : Nat}
    {symbol : Int}
    {next : Successor}
    (known : memory.automaton.successor? number symbol = some next) :
    successor setting memory number symbol = (next, memory) := by
  simp only [successor, known]

/-- A successor that is computed is remembered. -/
theorem Memory.Holds.succeeds
    (holds : memory.Holds)
    {number : Nat}
    (valid : number < memory.automaton.states.size)
    (symbol : Int) :
    Succeeds setting memory number symbol := by
  cases known : memory.automaton.successor? number symbol with
  | some next =>
      have isRun := @successor_of_known setting memory number symbol next known
      refine ⟨?_, ?_, ?_, ?_⟩ <;> rw [isRun]
      · exact holds
      · exact .refl memory
      · rintro target rfl
        exact holds.isIn.leading known
      · exact known
  | none =>
      have reaches :=
        repeats_reachSet? setting symbol false holds.wellMade
          (holds.isIn.configurationsOf number)
      have wellMade := reaches.wellMade
      have extension := reaches.extension
      have reachedIsIn := reaches.valid
      have larger := holds.isIn.grows extension.toGrows
      cases isReached :
          reachSet? setting (memory.automaton.configurationsOf number) symbol false
            memory.store with
      | mk reached? store =>
          rw [isReached] at wellMade extension reachedIsIn larger
          cases reached? with
          | none =>
              have isRun :
                  successor setting memory number symbol =
                    (.dead, ⟨store, memory.automaton.setSuccessor number symbol .dead⟩) := by
                simp only [successor, known, computeSuccessor, isReached]
              refine ⟨?_, ?_, ?_, ?_⟩ <;> rw [isRun]
              · exact ⟨wellMade, larger.setSuccessor (by simp) number symbol⟩
              · exact ⟨extension, Automaton.extends_setSuccessor known _⟩
              · rintro target ⟨⟩
              · exact Automaton.successor?_setSuccessor valid symbol _
          | some set =>
              let verdict := verdictOf? setting.network set
              have isRun :
                  successor setting memory number symbol =
                    (let added := memory.automaton.addState set verdict
                    (.state added.1,
                      ⟨store, added.2.setSuccessor number symbol (.state added.1)⟩)) := by
                simp only [successor, known, computeSuccessor, isReached, verdict]
              have added := larger.addState (reachedIsIn set rfl) verdict
              have adds := Automaton.extends_addState memory.automaton set verdict
              have stillMissing :=
                Automaton.successor?_addState memory.automaton set verdict number symbol
              refine ⟨?_, ?_, ?_, ?_⟩ <;> rw [isRun]
              · refine ⟨wellMade, added.1.setSuccessor ?_ number symbol⟩
                rintro target ⟨⟩
                exact added.2
              · exact ⟨extension, adds.trans
                  (Automaton.extends_setSuccessor (stillMissing.trans known) _)⟩
              · rintro target ⟨⟩
                simp only [Automaton.setSuccessor, Array.size_modify]
                exact added.2
              · exact Automaton.successor?_setSuccessor (adds.valid valid) symbol _

/-- What to fall back on does not change when the store grows. -/
theorem finishedAlternative?_grows
    {set : ConfigurationSet}
    {store larger : StackStore}
    (isIn : set.IsIn store)
    (grows : store.Grows larger) :
    finishedAlternative? setting set larger = finishedAlternative? setting set store := by
  have sameLeft :
      set.configurations.toList.filter (hasLeftRule setting.network larger) =
        set.configurations.toList.filter (hasLeftRule setting.network store) := by
    refine List.filter_congr fun configuration member => ?_
    rw [hasLeftRule, hasLeftRule,
      grows.reachesBottom (isIn configuration (Array.mem_toList_iff.mp member))]
  simp only [finishedAlternative?, sameLeft]

section Tokens

variable {σ : Type} [TokenSource σ] {tokens : TokenStream σ}

/-- The last token that an outcome is about was taken. -/
def Outcome.IsTaken
    (tokens : TokenStream σ)
    (outcome : Outcome) :
    Prop :=
  ∀ offending, outcome = .noViableAlternative offending → offending < tokens.tokens.size

/--
A prediction has only extended what is remembered and taken tokens, and when it is repeated at any
later time it comes to the same outcome, adds nothing and takes nothing.
-/
structure Remembered
    {μ : Type}
    (isSound : μ → Prop)
    (isExtended : μ → μ → Prop)
    (prediction : μ → TokenStream σ → Outcome × μ × TokenStream σ)
    (memory : μ)
    (tokens : TokenStream σ) :
    Prop where
  holds : isSound (prediction memory tokens).2.1
  extension : isExtended memory (prediction memory tokens).2.1
  continues : tokens.Continues (prediction memory tokens).2.2
  isTaken : (prediction memory tokens).1.IsTaken (prediction memory tokens).2.2
  again :
    ∀ {later : μ} {laterTokens : TokenStream σ},
      isExtended (prediction memory tokens).2.1 later →
        (prediction memory tokens).2.2.Continues laterTokens →
          prediction later laterTokens = ((prediction memory tokens).1, later, laterTokens)

/-- An outcome that is there already is remembered. -/
theorem remembered_settled
    {μ : Type}
    {isSound : μ → Prop}
    {isExtended : μ → μ → Prop}
    {memory : μ}
    {prediction : μ → TokenStream σ → Outcome × μ × TokenStream σ}
    (outcome : Outcome)
    (holds : isSound memory)
    (same : isExtended memory memory)
    (isTaken : outcome.IsTaken tokens)
    (settles :
      ∀ {later : μ} {laterTokens : TokenStream σ},
        isExtended memory later → tokens.Continues laterTokens →
          prediction later laterTokens = (outcome, later, laterTokens)) :
    Remembered isSound isExtended prediction memory tokens := by
  have isRun := settles same (.refl tokens)
  refine ⟨?_, ?_, ?_, ?_, ?_⟩ <;> rw [isRun]
  · exact holds
  · exact same
  · exact .refl tokens
  · exact isTaken
  · exact settles

omit [TokenSource σ] in
theorem Outcome.isTaken_outcomeOf
    {start : Nat}
    (taken : start < tokens.tokens.size)
    (precedence : Int)
    (verdict : Verdict) :
    (outcomeOf precedence start verdict).IsTaken tokens := by
  intro offending isOutcome
  unfold outcomeOf at isOutcome
  split at isOutcome
  · split at isOutcome <;> cases isOutcome
  · split at isOutcome
    · cases isOutcome
    · split at isOutcome
      · cases isOutcome
      · cases isOutcome
        exact taken
    · split at isOutcome <;> cases isOutcome

/-- Taking tokens does not change how far a prediction can look. -/
theorem lookaheadBound_continues
    {later : TokenStream σ}
    (continues : tokens.Continues later) :
    lookaheadBound later = lookaheadBound tokens := by
  have sameTokens := continues.all
  simp only [TokenStream.all] at sameTokens
  simp only [lookaheadBound, TokenStream.visibleCount, sameTokens]

/-- Behind a token that is not the end there is another one. -/
theorem lt_size_all_of_not_end
    (sound : tokens.Sound)
    {index : Nat}
    (taken : index < tokens.tokens.size)
    (notEnd : ((tokens.token index).type == endOfInput) = false) :
    index + 1 < tokens.all.size := by
  have present := TokenStream.getElem?_all_of_some (Array.getElem?_eq_getElem taken)
  have inBounds := (Array.getElem?_eq_some_iff.mp present).1
  have isToken : tokens.token index = tokens.tokens[index] := by
    simp [TokenStream.token, Array.getD_eq_getD_getElem?, taken]
  have notLast : ¬ index + 1 = tokens.all.size := by
    rw [← sound.isEnd_iff present, ← isToken]
    simpa [Token.isEnd] using notEnd
  omega

/-- Where a prediction looks next: at the next visible token, unless it is at the end. -/
def nextIndex
    (tokens : TokenStream σ)
    (index : Nat) :
    Nat × TokenStream σ :=
  if (tokens.token index).type == endOfInput then
    (index, tokens)
  else
    tokens.nextVisible (index + 1)

/-- The next token has been taken, and it is found again. -/
structure Looks
    (tokens : TokenStream σ)
    (index : Nat) :
    Prop where
  sound : (nextIndex tokens index).2.Sound
  continues : tokens.Continues (nextIndex tokens index).2
  taken : (nextIndex tokens index).1 < (nextIndex tokens index).2.tokens.size
  again :
    ∀ {later : TokenStream σ},
      (nextIndex tokens index).2.Continues later →
        nextIndex later index = ((nextIndex tokens index).1, later)

theorem looks
    (sound : tokens.Sound)
    {index : Nat}
    (taken : index < tokens.tokens.size) :
    Looks tokens index := by
  cases isEnd : (tokens.token index).type == endOfInput with
  | true =>
      have isRun : nextIndex tokens index = (index, tokens) := by
        simp only [nextIndex, isEnd, if_true]
      refine ⟨?_, ?_, ?_, ?_⟩ <;> rw [isRun]
      · exact sound
      · exact .refl tokens
      · exact taken
      · intro later continues
        simp only [nextIndex, continues.token_eq taken, isEnd, if_true]
  | false =>
      have isRun : nextIndex tokens index = tokens.nextVisible (index + 1) := by
        simp only [nextIndex, isEnd, Bool.false_eq_true, if_false]
      have inBounds := lt_size_all_of_not_end sound taken isEnd
      have looked := TokenStream.Continues.nextVisible tokens (index + 1)
      refine ⟨?_, ?_, ?_, ?_⟩ <;> rw [isRun]
      · exact looked.sound sound
      · exact looked
      · exact (TokenStream.firstVisible_nextVisible sound inBounds).2
      · intro later continues
        simp only [nextIndex, (looked.trans continues).token_eq taken, isEnd, Bool.false_eq_true,
          if_false]
        exact TokenStream.nextVisible_again sound inBounds continues

/-- What a prediction does once it knows where the token before it leads. -/
def settle
    (setting : Setting)
    (start number index : Nat)
    (goOn : Nat → Nat → Memory → TokenStream σ → Outcome × Memory × TokenStream σ)
    (next : Successor)
    (memory : Memory)
    (tokens : TokenStream σ) :
    Outcome × Memory × TokenStream σ :=
  match next with
  | .dead =>
      match finishedAlternative? setting (memory.automaton.configurationsOf number)
          memory.store with
      | some alternative => (.predicted alternative, memory, tokens)
      | none => (.noViableAlternative index, memory, tokens)
  | .state target =>
      match memory.automaton.verdictOf? target with
      | some verdict => (outcomeOf setting.precedence start verdict, memory, tokens)
      | none => goOn target (nextIndex tokens index).1 memory (nextIndex tokens index).2

/-- Following the automaton is to look up a successor, and to settle or to go on. -/
theorem followAutomaton_succ_settle
    (setting : Setting)
    (start limit number index : Nat)
    (memory : Memory)
    (tokens : TokenStream σ) :
    followAutomaton setting start (limit + 1) number index memory tokens =
      let found := successor setting memory number (tokens.token index).type
      settle setting start number index (followAutomaton setting start limit) found.1 found.2
        tokens := by
  rw [followAutomaton]
  generalize successor setting memory number (tokens.token index).type = found
  obtain ⟨next, memory⟩ := found
  cases next <;> rfl

/-- Settling is remembered if going on is. -/
theorem Memory.Holds.remembered_settle
    {start number index : Nat}
    {goOn : Nat → Nat → Memory → TokenStream σ → Outcome × Memory × TokenStream σ}
    {next : Successor}
    (holds : memory.Holds)
    (sound : tokens.Sound)
    (valid : number < memory.automaton.states.size)
    (nextValid : ∀ target, next = .state target → target < memory.automaton.states.size)
    (taken : index < tokens.tokens.size)
    (startTaken : start < tokens.tokens.size)
    (goesOn :
      ∀ {target : Nat},
        target < memory.automaton.states.size →
          Remembered Memory.Holds Memory.Extends (goOn target (nextIndex tokens index).1) memory
            (nextIndex tokens index).2) :
    Remembered Memory.Holds Memory.Extends (settle setting start number index goOn next) memory
      tokens := by
  cases next with
  | dead =>
      have setIsIn := holds.isIn.configurationsOf number
      cases isFinished :
          finishedAlternative? setting (memory.automaton.configurationsOf number)
            memory.store with
      | some alternative =>
          refine remembered_settled (.predicted alternative) holds (.refl memory)
            (by rintro _ ⟨⟩) ?_
          intro later laterTokens larger _
          simp only [settle, larger.automaton.configurationsOf valid,
            finishedAlternative?_grows setIsIn larger.store.toGrows, isFinished]
      | none =>
          refine remembered_settled (.noViableAlternative index) holds (.refl memory)
            (by rintro _ ⟨⟩; exact taken) ?_
          intro later laterTokens larger _
          simp only [settle, larger.automaton.configurationsOf valid,
            finishedAlternative?_grows setIsIn larger.store.toGrows, isFinished]
  | state target =>
      have targetValid := nextValid target rfl
      cases isSettled : memory.automaton.verdictOf? target with
      | some verdict =>
          refine remembered_settled _ holds (.refl memory)
            (Outcome.isTaken_outcomeOf startTaken setting.precedence verdict) ?_
          intro later laterTokens larger _
          simp only [settle, larger.automaton.verdictOf? targetValid, isSettled]
      | none =>
          have looked := looks sound taken
          have remembered := goesOn targetValid
          have isRun :
              settle setting start number index goOn (.state target) memory tokens =
                goOn target (nextIndex tokens index).1 memory (nextIndex tokens index).2 := by
            simp only [settle, isSettled]
          refine ⟨?_, ?_, ?_, ?_, ?_⟩ <;> rw [isRun]
          · exact remembered.holds
          · exact remembered.extension
          · exact looked.continues.trans remembered.continues
          · exact remembered.isTaken
          · intro later laterTokens larger continues
            have behind := remembered.extension.trans larger
            simp only [settle, behind.automaton.verdictOf? targetValid, isSettled,
              looked.again (remembered.continues.trans continues)]
            exact remembered.again larger continues

/-- Following the automaton is remembered. -/
theorem Memory.Holds.remembered_followAutomaton
    (setting : Setting)
    (start limit : Nat)
    {number index : Nat}
    (holds : memory.Holds)
    (sound : tokens.Sound)
    (valid : number < memory.automaton.states.size)
    (taken : index < tokens.tokens.size)
    (startTaken : start < tokens.tokens.size) :
    Remembered Memory.Holds Memory.Extends (followAutomaton setting start limit number index) memory
      tokens := by
  induction limit generalizing number index memory tokens with
  | zero =>
      exact remembered_settled .needsFullContext holds (.refl memory) (by rintro _ ⟨⟩)
        fun _ _ => rfl
  | succ limit inductionHypothesis =>
      have succeeds : Succeeds setting memory number (tokens.token index).type :=
        holds.succeeds valid _
      have looked := looks sound taken
      have startStillTaken : start < (nextIndex tokens index).2.tokens.size := by
        have present := looked.continues.kept (Array.getElem?_eq_getElem startTaken)
        exact (Array.getElem?_eq_some_iff.mp present).1
      have settles :
          Remembered Memory.Holds Memory.Extends
            (settle setting start number index (followAutomaton setting start limit)
              (successor setting memory number (tokens.token index).type).1)
            (successor setting memory number (tokens.token index).type).2 tokens :=
        succeeds.holds.remembered_settle sound (succeeds.extension.automaton.valid valid)
          (fun _ isNext => succeeds.valid isNext) taken startTaken fun targetValid =>
            inductionHypothesis succeeds.holds looked.sound targetValid looked.taken
              startStillTaken
      have isRun :=
        followAutomaton_succ_settle setting start limit number index memory tokens
      dsimp only at isRun
      refine ⟨?_, ?_, ?_, ?_, ?_⟩ <;> rw [isRun]
      · exact settles.holds
      · exact succeeds.extension.trans settles.extension
      · exact settles.continues
      · exact settles.isTaken
      · intro later laterTokens larger continues
        have known :=
          (settles.extension.trans larger).automaton.successor? succeeds.known
        rw [followAutomaton_succ_settle,
          (settles.continues.trans continues).token_eq taken, successor_of_known known]
        exact settles.again larger continues

/-- Remembered predictions are remembered. -/
theorem Memory.Holds.remembered_predictRemembered
    (setting : Setting)
    {start : Nat}
    (holds : memory.Holds)
    (sound : tokens.Sound)
    (taken : start < tokens.tokens.size) :
    Remembered Memory.Holds Memory.Extends
      (fun memory tokens => predictRemembered setting memory tokens start) memory tokens := by
  have starts : Starts setting memory := holds.starts
  have remembered :=
    starts.holds.remembered_followAutomaton setting start (lookaheadBound tokens) sound starts.valid
      taken taken
  have isRun :
      predictRemembered setting memory tokens start =
        followAutomaton setting start (lookaheadBound tokens) (startState setting memory).1 start
          (startState setting memory).2 tokens :=
    rfl
  refine ⟨?_, ?_, ?_, ?_, ?_⟩ <;> rw [isRun]
  · exact remembered.holds
  · exact starts.extension.trans remembered.extension
  · exact remembered.continues
  · exact remembered.isTaken
  · intro later laterTokens larger continues
    have recorded :=
      (remembered.extension.trans larger).automaton.started starts.recorded
    have sameBound : lookaheadBound laterTokens = lookaheadBound tokens :=
      lookaheadBound_continues (remembered.continues.trans continues)
    simp only [predictRemembered, startState_of_recorded recorded, sameBound]
    exact remembered.again larger continues


/-- What a prediction in context does once it knows where the token before it leads. -/
def settleInContext
    (setting : Setting)
    (set : ConfigurationSet)
    (index : Nat)
    (goOn : ConfigurationSet → Nat → StackStore → TokenStream σ →
      Outcome × StackStore × TokenStream σ)
    (reached? : Option ConfigurationSet)
    (store : StackStore)
    (tokens : TokenStream σ) :
    Outcome × StackStore × TokenStream σ :=
  match reached? with
  | none =>
      match finishedAlternative? setting set store with
      | some alternative => (.predicted alternative, store, tokens)
      | none => (.noViableAlternative index, store, tokens)
  | some reached =>
      match reached.uniqueAlternative?.or (commonLowest? reached.alternativesByPlace) with
      | some alternative => (.predicted alternative, store, tokens)
      | none => goOn reached (nextIndex tokens index).1 store (nextIndex tokens index).2

/-- Simulating tokens is to find out where one leads, and to settle or to go on. -/
theorem simulateTokens_succ_settle
    (setting : Setting)
    (limit : Nat)
    (set : ConfigurationSet)
    (index : Nat)
    (store : StackStore)
    (tokens : TokenStream σ) :
    simulateTokens setting (limit + 1) set index store tokens =
      let found := reachSet? setting set (tokens.token index).type true store
      settleInContext setting set index (simulateTokens setting limit) found.1 found.2 tokens := by
  rw [simulateTokens]
  generalize reachSet? setting set (tokens.token index).type true store = found
  obtain ⟨reached?, store⟩ := found
  cases reached? <;> rfl

/-- Settling in context is remembered if going on is. -/
theorem remembered_settleInContext
    {set : ConfigurationSet}
    {index : Nat}
    {goOn : ConfigurationSet → Nat → StackStore → TokenStream σ →
      Outcome × StackStore × TokenStream σ}
    {reached? : Option ConfigurationSet}
    {store : StackStore}
    (wellMade : store.WellMade)
    (isIn : set.IsIn store)
    (reachedIsIn : ReachedIsIn store reached?)
    (sound : tokens.Sound)
    (taken : index < tokens.tokens.size)
    (goesOn :
      ∀ {reached : ConfigurationSet},
        reached.IsIn store →
          Remembered StackStore.WellMade StackStore.Extends
            (goOn reached (nextIndex tokens index).1) store (nextIndex tokens index).2) :
    Remembered StackStore.WellMade StackStore.Extends
      (settleInContext setting set index goOn reached?) store tokens := by
  cases reached? with
  | none =>
      cases isFinished : finishedAlternative? setting set store with
      | some alternative =>
          refine remembered_settled (.predicted alternative) wellMade (.refl store)
            (by rintro _ ⟨⟩) ?_
          intro later laterTokens larger _
          simp only [settleInContext, finishedAlternative?_grows isIn larger.toGrows, isFinished]
      | none =>
          refine remembered_settled (.noViableAlternative index) wellMade (.refl store)
            (by rintro _ ⟨⟩; exact taken) ?_
          intro later laterTokens larger _
          simp only [settleInContext, finishedAlternative?_grows isIn larger.toGrows, isFinished]
  | some reached =>
      cases isSettled :
          reached.uniqueAlternative?.or (commonLowest? reached.alternativesByPlace) with
      | some alternative =>
          refine remembered_settled (.predicted alternative) wellMade (.refl store)
            (by rintro _ ⟨⟩) ?_
          intro later laterTokens _ _
          simp only [settleInContext, isSettled]
      | none =>
          have looked := looks sound taken
          have remembered := goesOn (reachedIsIn reached rfl)
          have isRun :
              settleInContext setting set index goOn (some reached) store tokens =
                goOn reached (nextIndex tokens index).1 store (nextIndex tokens index).2 := by
            simp only [settleInContext, isSettled]
          refine ⟨?_, ?_, ?_, ?_, ?_⟩ <;> rw [isRun]
          · exact remembered.holds
          · exact remembered.extension
          · exact looked.continues.trans remembered.continues
          · exact remembered.isTaken
          · intro later laterTokens larger continues
            simp only [settleInContext, isSettled,
              looked.again (remembered.continues.trans continues)]
            exact remembered.again larger continues

/-- Simulating tokens is remembered. -/
theorem remembered_simulateTokens
    (setting : Setting)
    (limit : Nat)
    {set : ConfigurationSet}
    {index : Nat}
    {store : StackStore}
    (wellMade : store.WellMade)
    (isIn : set.IsIn store)
    (sound : tokens.Sound)
    (taken : index < tokens.tokens.size) :
    Remembered StackStore.WellMade StackStore.Extends (simulateTokens setting limit set index) store
      tokens := by
  induction limit generalizing set index store tokens with
  | zero =>
      exact remembered_settled .needsFullContext wellMade (.refl store) (by rintro _ ⟨⟩)
        fun _ _ => rfl
  | succ limit inductionHypothesis =>
      have reaches := repeats_reachSet? setting (tokens.token index).type true wellMade isIn
      have looked := looks sound taken
      have settles :
          Remembered StackStore.WellMade StackStore.Extends
            (settleInContext setting set index (simulateTokens setting limit)
              (reachSet? setting set (tokens.token index).type true store).1)
            (reachSet? setting set (tokens.token index).type true store).2 tokens :=
        remembered_settleInContext reaches.wellMade (isIn.grows reaches.extension.toGrows)
          reaches.valid sound taken fun reachedIsIn =>
            inductionHypothesis reaches.wellMade reachedIsIn looked.sound looked.taken
      have isRun := simulateTokens_succ_settle setting limit set index store tokens
      dsimp only at isRun
      refine ⟨?_, ?_, ?_, ?_, ?_⟩ <;> rw [isRun]
      · exact settles.holds
      · exact reaches.extension.trans settles.extension
      · exact settles.continues
      · exact settles.isTaken
      · intro later laterTokens larger continues
        rw [simulateTokens_succ_settle, (settles.continues.trans continues).token_eq taken,
          reaches.again (settles.extension.trans larger)]
        exact settles.again larger continues

/-- Predictions in context are remembered. -/
theorem remembered_predictInContext
    (setting : Setting)
    (decisionState : Nat)
    (returnStates : List Nat)
    {start : Nat}
    {store : StackStore}
    (wellMade : store.WellMade)
    (sound : tokens.Sound)
    (taken : start < tokens.tokens.size) :
    Remembered StackStore.WellMade StackStore.Extends
      (fun store tokens =>
        predictInContext setting decisionState returnStates store tokens start)
      store tokens := by
  have pushes := repeats_ofReturnStates wellMade returnStates
  have begins :=
    pushes.bind (fun stack => startSet setting decisionState stack true)
      (repeats_startSet setting decisionState true pushes.wellMade pushes.valid)
  have remembered :=
    remembered_simulateTokens setting (lookaheadBound tokens) begins.wellMade begins.valid sound taken
  refine ⟨remembered.holds, begins.extension.trans remembered.extension, remembered.continues,
    remembered.isTaken, ?_⟩
  intro later laterTokens larger continues
  have sameBound : lookaheadBound laterTokens = lookaheadBound tokens :=
    lookaheadBound_continues (remembered.continues.trans continues)
  have isRun :
      predictInContext setting decisionState returnStates later laterTokens start =
        (let begun :=
          startSet setting decisionState ((StackStore.ofReturnStates returnStates).run later).1
            true ((StackStore.ofReturnStates returnStates).run later).2
        simulateTokens setting (lookaheadBound laterTokens) begun.1 start begun.2 laterTokens) :=
    rfl
  have again := begins.again (remembered.extension.trans larger)
  rw [isRun, again, sameBound]
  exact remembered.again larger continues

end Tokens

end Memories

namespace SharedState

/--
An encoded network for the rule `r : ( ( A | B | L r )+ | ( A | B K N ) ( K N )* Z ) K N`, where the
tokens `A`, `B`, `K`, `N`, `Z` and `L` are 1 to 6. Its first decision is in state 2.
-/
def encoded : List Int :=
  [4, 1, 7, 27, 2, 0, 7, 0, 3, 0, 3, 8, 0, 4, 0, 5, 8, 0, 11, 0, 12, 0, 6, 1, 0, 1, 0, 1, 0,
    1, 0, 3, 0, 13, 8, 0, 1, 0, 1, 0, 1, 0, 1, 0, 10, 0, 5, 0, 21, 1, 0, 8, 0, 9, 0, 12, 0,
    22, 1, 0, 1, 0, 1, 0, 0, 0, 1, 0, 0, 0, 32, 0, 2, 1, 0, 0, 0, 2, 4, 1, 0, 0, 0, 2, 12, 1,
    0, 0, 0, 4, 8, 1, 0, 0, 0, 4, 9, 1, 0, 0, 0, 4, 10, 1, 0, 0, 0, 5, 6, 1, 0, 0, 0, 6, 4, 1,
    0, 0, 0, 6, 7, 1, 0, 0, 0, 7, 3, 1, 0, 0, 0, 3, 25, 1, 0, 0, 0, 12, 14, 1, 0, 0, 0, 12,
    15, 1, 0, 0, 0, 13, 18, 1, 0, 0, 0, 18, 19, 1, 0, 0, 0, 18, 23, 1, 0, 0, 0, 21, 22, 1, 0,
    0, 0, 22, 18, 1, 0, 0, 0, 23, 24, 1, 0, 0, 0, 8, 5, 5, 1, 0, 0, 9, 5, 5, 2, 0, 0, 10, 11,
    5, 6, 0, 0, 11, 5, 3, 0, 0, 0, 14, 13, 5, 1, 0, 0, 15, 16, 5, 2, 0, 0, 16, 17, 5, 3, 0, 0,
    17, 13, 5, 4, 0, 0, 19, 20, 5, 3, 0, 0, 20, 21, 5, 4, 0, 0, 24, 3, 5, 5, 0, 0, 25, 26, 5,
    3, 0, 0, 26, 1, 5, 4, 0, 0, 5, 2, 4, 6, 12, 18]

/-- The network itself. -/
def network : Network :=
  (Network.decode encoded).toOption.getD default

/-- Tokens of some types, and the end of the input. -/
def tokensOf (types : List Int) : TokenStream ListedTokens :=
  (TokenStream.ofSource (ListedTokens.ofList (types.map fun type => (type, "", 0)))).fill

/-- The first decision, predicted on tokens of some types. -/
def predicted
    (memory : Memory)
    (types : List Int) :
    Outcome × Memory × TokenStream ListedTokens :=
  predictRemembered (Parser.settingOf network memory.automaton 0) memory (tokensOf types) 0

/-- The memory of the first decision before anything was predicted. -/
def empty : Memory :=
  ⟨(PredictionCache.initial network).store, Automaton.initial network 2⟩

/-- What is remembered once the first decision was predicted on `A Z`. -/
def cache : PredictionCache :=
  (PredictionCache.initial network).remember 0 (predicted empty [1, 5]).2.1

theorem automata_initial :
    (PredictionCache.initial network).automata[0]? = some (Automaton.initial network 2) := by
  cbv

/-- The first prediction of the first decision leads to a reachable cache. -/
theorem reachable_remember
    {automaton : Automaton}
    (present : (PredictionCache.initial network).automata[0]? = some automaton)
    (types : List Int) :
    ((PredictionCache.initial network).remember 0
      (predicted ⟨(PredictionCache.initial network).store, automaton⟩ types).2.1).Reachable
        network :=
  .remembered 0 0 0 (tokensOf types) .initial present

theorem reachable_cache : cache.Reachable network := by
  have reachable := reachable_remember automata_initial [1, 5]
  unfold cache empty
  exact reachable

theorem automata_cache :
    cache.automata[0]? = some (predicted empty [1, 5]).2.1.automaton := by
  obtain ⟨inBounds, _⟩ := Array.getElem?_eq_some_iff.mp automata_initial
  exact Array.getElem?_setIfInBounds_self_of_lt inBounds

set_option maxRecDepth 20000 in
/--
Behind `A` the alternatives are in the same places as behind `B K N`, but the first one has left the
rule only there. Configurations with the same keys share a state, so a prediction on `B K N K N` that
finds the state of `A` does not know that the first alternative has finished, and fails where it
would have fallen back on it.
-/
theorem outcome_depends_on_cache :
    Network.decode encoded = .ok network ∧ cache.Reachable network ∧
      (PredictionCache.initial network).automata[0]? = some empty.automaton ∧
        cache.automata[0]? = some (predicted empty [1, 5]).2.1.automaton ∧
          (predicted empty [2, 3, 4, 3, 4]).1 = .predicted 1 ∧
            (predicted ⟨cache.store, (predicted empty [1, 5]).2.1.automaton⟩ [2, 3, 4, 3, 4]).1 =
              .noViableAlternative 5 :=
  ⟨by cbv, reachable_cache, automata_initial, automata_cache, by cbv, by cbv⟩

end SharedState

end Prediction

end GrammarService
