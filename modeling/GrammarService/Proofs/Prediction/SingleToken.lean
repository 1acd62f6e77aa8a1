import GrammarService.Proofs.Prediction.Automata
import GrammarService.Parser.Run

namespace GrammarService

/-!
# Decisions that one token settles

Where the token at a decision leaves a single alternative, prediction looks no further. Of a
decision that all tokens in use settle at all precedences in use, the configurations that
prediction can come to are few, and they can be compared once and for all. What its automaton
remembers then makes no difference: it answers as a new one would.
-/

namespace Prediction

/-- A token type that settles a decision for an alternative, at a precedence. -/
structure Case where
  precedence : Int
  type : Int
  alternative : Nat
  deriving Repr, DecidableEq

/-- The setting of a decision that is made at a precedence. -/
def settingAt
    (network : Network)
    (decisionState : Nat)
    (precedence : Int) :
    Setting :=
  Parser.settingOf network (Automaton.initial network decisionState) precedence

/-- The configurations that predicting a decision begins with, while no stack is stored. -/
def firstSet
    (network : Network)
    (decisionState : Nat)
    (precedence : Int) :
    ConfigurationSet × StackStore :=
  let setting := settingAt network decisionState precedence
  let (set, store) := startSet setting decisionState StackId.empty false StackStore.initial
  if (Automaton.initial network decisionState).byPrecedence then
    filterByPrecedence setting set store
  else
    (set, store)

/-- The configurations that the token of a case leads to. -/
def secondSet?
    (network : Network)
    (decisionState : Nat)
    (case : Case) :
    Option ConfigurationSet × StackStore :=
  reachSet? (settingAt network decisionState case.precedence)
    (firstSet network decisionState case.precedence).1 case.type false StackStore.initial

/-- What predicting a case comes to see, in a form that can be compared. -/
structure Look where
  type : Int
  firstConfigurations : Array Configuration
  firstKeys : List Configuration.Key
  secondKeys : Option (List Configuration.Key)
  verdict : Option Verdict
  deriving DecidableEq

/-- What predicting a case comes to see. -/
def lookAt
    (network : Network)
    (decisionState : Nat)
    (case : Case) :
    Look :=
  let first := (firstSet network decisionState case.precedence).1
  let second := (secondSet? network decisionState case).1
  { type := case.type
    firstConfigurations := first.configurations
    firstKeys := first.keys
    secondKeys := second.map ConfigurationSet.keys
    verdict := second.bind (verdictOf? network) }

namespace Look

/--
Whether two looks at a decision can be remembered side by side: the keys under which an automaton
finds their configurations do not mistake one for the other.
-/
def agrees
    (byPrecedence : Bool)
    (one other : Look) :
    Bool :=
  let sameFirst : Bool := one.firstConfigurations = other.firstConfigurations
  let sameVerdict : Bool := one.verdict = other.verdict
  (byPrecedence || sameFirst) &&
    (one.firstKeys ≠ other.firstKeys || sameFirst) &&
    (other.secondKeys ≠ some one.firstKeys) &&
    (one.secondKeys ≠ other.secondKeys || sameVerdict) &&
    (!sameFirst || one.type ≠ other.type || sameVerdict)

end Look

/-- Whether each case of a decision is predicted by its verdict, and all looks agree. -/
def checkCases
    (network : Network)
    (decisionState : Nat)
    (cases : List Case) :
    Bool :=
  let looks := cases.map (lookAt network decisionState)
  (cases.zip looks).all (fun (case, look) =>
      look.verdict.any fun verdict =>
        outcomeOf case.precedence 0 verdict = .predicted case.alternative) &&
    looks.all fun one =>
      looks.all (one.agrees (Automaton.initial network decisionState).byPrecedence)

/--
Every case of a decision is predicted by its verdict, without storing a stack, and what an automaton
finds under the keys of a case belongs to it.
-/
structure Settled
    (network : Network)
    (decisionState : Nat)
    (cases : List Case) :
    Prop where
  firstStore :
    ∀ case ∈ cases, (firstSet network decisionState case.precedence).2 = StackStore.initial
  settles :
    ∀ case ∈ cases,
      ∃ set verdict,
        secondSet? network decisionState case = (some set, StackStore.initial) ∧
          verdictOf? network set = some verdict ∧
          outcomeOf case.precedence 0 verdict = .predicted case.alternative
  agrees :
    ∀ one ∈ cases, ∀ other ∈ cases,
      (lookAt network decisionState one).agrees
        (Automaton.initial network decisionState).byPrecedence
        (lookAt network decisionState other) = true

/-- The cases of a decision that pass the check are settled. -/
theorem settled_of_checkCases
    {network : Network}
    {decisionState : Nat}
    {cases : List Case}
    (firstStores :
      cases.map (fun case => (firstSet network decisionState case.precedence).2) =
        cases.map fun _ => StackStore.initial)
    (secondStores :
      cases.map (fun case => (secondSet? network decisionState case).2) =
        cases.map fun _ => StackStore.initial)
    (checked : checkCases network decisionState cases = true) :
    Settled network decisionState cases := by
  rw [List.map_inj_left] at firstStores secondStores
  simp only [checkCases, List.zip_map_right, List.all_map, Bool.and_eq_true, List.all_eq_true,
    Function.comp_apply, Option.any_eq_true, decide_eq_true_eq] at checked
  refine ⟨firstStores, ?_, checked.2⟩
  intro case member
  have isPaired : (case, case) ∈ cases.zip cases := by
    obtain ⟨index, inBounds, rfl⟩ := List.mem_iff_getElem.mp member
    exact List.mem_iff_getElem.mpr ⟨index, by simpa using inBounds, by simp⟩
  obtain ⟨verdict, isVerdict, outcome⟩ := checked.1 _ isPaired
  obtain ⟨set, isSecond, isVerdict⟩ := Option.bind_eq_some_iff.mp isVerdict
  exact ⟨set, verdict, Prod.ext isSecond (secondStores case member), isVerdict, outcome⟩

namespace Settled

variable
  {network : Network}
  {decisionState : Nat}
  {cases : List Case}
  (settled : Settled network decisionState cases)
  {one other : Case}
  (isCase : one ∈ cases)
  (isOther : other ∈ cases)

include settled isCase

/-- Each case has a verdict. -/
theorem exists_verdict :
    ∃ verdict,
      (lookAt network decisionState one).verdict = some verdict ∧
        outcomeOf one.precedence 0 verdict = .predicted one.alternative := by
  obtain ⟨set, verdict, isSecond, isVerdict, outcome⟩ := settled.settles one isCase
  refine ⟨verdict, ?_, outcome⟩
  simp [lookAt, isSecond, isVerdict]

include isOther

/-- Without a start for each precedence, all predictions begin with the same configurations. -/
theorem same_first
    (single : (Automaton.initial network decisionState).byPrecedence = false) :
    (lookAt network decisionState one).firstConfigurations =
      (lookAt network decisionState other).firstConfigurations := by
  have agrees := settled.agrees one isCase other isOther
  simp only [Look.agrees, single, Bool.false_or, Bool.and_eq_true, decide_eq_true_eq] at agrees
  exact agrees.1.1.1.1

/-- First configurations with the same keys are the same. -/
theorem first_of_keys
    (sameKeys :
      (lookAt network decisionState one).firstKeys =
        (lookAt network decisionState other).firstKeys) :
    (lookAt network decisionState one).firstConfigurations =
      (lookAt network decisionState other).firstConfigurations := by
  have agrees := settled.agrees one isCase other isOther
  simp only [Look.agrees, Bool.and_eq_true, Bool.or_eq_true, decide_eq_true_eq] at agrees
  exact agrees.1.1.1.2.resolve_left (not_not.mpr sameKeys)

/-- What predictions begin with is not mistaken for what a token leads to. -/
theorem keys_apart :
    (lookAt network decisionState other).secondKeys ≠
      some (lookAt network decisionState one).firstKeys := by
  have agrees := settled.agrees one isCase other isOther
  simp only [Look.agrees, Bool.and_eq_true, decide_eq_true_eq] at agrees
  exact agrees.1.1.2

/-- Where tokens lead to the same keys, the verdicts are the same. -/
theorem verdict_of_keys
    (sameKeys :
      (lookAt network decisionState one).secondKeys =
        (lookAt network decisionState other).secondKeys) :
    (lookAt network decisionState one).verdict =
      (lookAt network decisionState other).verdict := by
  have agrees := settled.agrees one isCase other isOther
  simp only [Look.agrees, Bool.and_eq_true, Bool.or_eq_true, decide_eq_true_eq] at agrees
  exact agrees.1.2.resolve_left (not_not.mpr sameKeys)

/-- From the same configurations the same token leads to the same verdict. -/
theorem same_verdict
    (sameFirst :
      (lookAt network decisionState one).firstConfigurations =
        (lookAt network decisionState other).firstConfigurations)
    (sameType : one.type = other.type) :
    (lookAt network decisionState one).verdict =
      (lookAt network decisionState other).verdict := by
  have agrees := settled.agrees one isCase other isOther
  simp only [Look.agrees, sameFirst, Bool.and_eq_true, Bool.or_eq_true, decide_true, Bool.not_true,
    Bool.false_or, decide_eq_true_eq] at agrees
  exact agrees.2.resolve_left (not_not.mpr sameType)

end Settled

/-- A state of an automaton has the given configurations. -/
def Has
    (automaton : Automaton)
    (number : Nat)
    (configurations : Array Configuration) :
    Prop :=
  ∃ state,
    automaton.states[number]? = some state ∧
      state.configurations.configurations = configurations

/-- A state keeps its configurations when another one is added. -/
theorem Has.addState
    {automaton : Automaton}
    {number : Nat}
    {configurations : Array Configuration}
    (has : Has automaton number configurations)
    (set : ConfigurationSet)
    (verdict : Option Verdict) :
    Has (automaton.addState set verdict).2 number configurations := by
  obtain ⟨state, present, same⟩ := has
  cases known : automaton.index[set.keys]? with
  | some found =>
      rw [Automaton.addState_of_known known]
      exact ⟨state, present, same⟩
  | none =>
      rw [Automaton.addState_of_new known]
      exact ⟨state, Automaton.getElem?_push_of_some present, same⟩

/--
An automaton has the decision's settled cases right: predictions begin with the configurations of
their case, the token of the case leads on to its verdict, and what the index finds belongs to every
case with the same keys.
-/
structure Recalls
    (network : Network)
    (decisionState : Nat)
    (cases : List Case)
    (automaton : Automaton) :
    Prop where
  sameState : automaton.decisionState = decisionState
  sameKind :
    automaton.byPrecedence = (Automaton.initial network decisionState).byPrecedence
  start :
    ∀ case ∈ cases,
      ∀ {number : Nat},
        automaton.start? case.precedence = some number →
          Has automaton number (lookAt network decisionState case).firstConfigurations
  successor :
    ∀ case ∈ cases,
      ∀ {number : Nat} {successor : Successor},
        Has automaton number (lookAt network decisionState case).firstConfigurations →
          automaton.successor? number case.type = some successor →
            ∃ target verdict,
              successor = .state target ∧
                automaton.verdictOf? target = some verdict ∧
                (lookAt network decisionState case).verdict = some verdict
  index :
    ∀ {keys : List Configuration.Key} {number : Nat},
      automaton.index[keys]? = some number →
        ∃ state,
          automaton.states[number]? = some state ∧
            ∀ case ∈ cases,
              ((lookAt network decisionState case).firstKeys = keys →
                state.configurations.configurations =
                  (lookAt network decisionState case).firstConfigurations) ∧
              ((lookAt network decisionState case).secondKeys = some keys →
                state.verdict = (lookAt network decisionState case).verdict)

namespace Recalls

variable
  {network : Network}
  {decisionState : Nat}
  {cases : List Case}
  {automaton : Automaton}

/-- An automaton that has not predicted anything has nothing wrong. -/
theorem ofInitial
    (network : Network)
    (decisionState : Nat)
    (cases : List Case) :
    Recalls network decisionState cases (Automaton.initial network decisionState) where
  sameState := rfl
  sameKind := rfl
  start := by
    simp [Automaton.initial, Automaton.start?]
  successor := by
    simp [Automaton.initial, Automaton.successor?]
  index := by
    simp [Automaton.initial]

/-- A state that is added under keys of its own keeps what the automaton recalls. -/
theorem addState
    (recalls : Recalls network decisionState cases automaton)
    {set : ConfigurationSet}
    {verdict : Option Verdict}
    (belongs :
      ∀ case ∈ cases,
        ((lookAt network decisionState case).firstKeys = set.keys →
          set.configurations = (lookAt network decisionState case).firstConfigurations) ∧
        ((lookAt network decisionState case).secondKeys = some set.keys →
          verdict = (lookAt network decisionState case).verdict)) :
    Recalls network decisionState cases (automaton.addState set verdict).2 := by
  cases known : automaton.index[set.keys]? with
  | some number =>
      rw [Automaton.addState_of_known known]
      exact recalls
  | none =>
      rw [Automaton.addState_of_new known]
      refine ⟨recalls.sameState, recalls.sameKind, ?_, ?_, ?_⟩
      · intro case isCase number isStart
        obtain ⟨state, present, same⟩ := recalls.start case isCase isStart
        exact ⟨state, Automaton.getElem?_push_of_some present, same⟩
      · rintro case isCase number successor ⟨state, present, same⟩ leads
        simp only [Automaton.successor?, present] at leads
        rw [Array.getElem?_push] at present
        split at present
        · cases present
          simp at leads
        · obtain ⟨target, found, rfl, isVerdict, same⟩ :=
            recalls.successor case isCase ⟨state, present, same⟩
              (by rw [Automaton.successor?, present]; exact leads)
          refine ⟨target, found, rfl, ?_, same⟩
          unfold Automaton.verdictOf? at isVerdict ⊢
          cases isThere : automaton.states[target]? with
          | none => simp [isThere] at isVerdict
          | some before =>
              rw [isThere] at isVerdict
              rw [Automaton.getElem?_push_of_some isThere]
              exact isVerdict
      · intro keys number isIndexed
        rw [Std.HashMap.getElem?_insert] at isIndexed
        split at isIndexed
        · rename_i sameKeys
          cases isIndexed
          rw [beq_iff_eq] at sameKeys
          exact ⟨⟨set, ∅, verdict⟩, by simp, sameKeys ▸ belongs⟩
        · obtain ⟨state, present, right⟩ := recalls.index isIndexed
          exact ⟨state, Automaton.getElem?_push_of_some present, right⟩

/-- A start is recorded where predictions of its precedence begin. -/
theorem setStart
    (settled : Settled network decisionState cases)
    (recalls : Recalls network decisionState cases automaton)
    {case : Case}
    (isCase : case ∈ cases)
    {number : Nat}
    (has : Has automaton number (lookAt network decisionState case).firstConfigurations) :
    Recalls network decisionState cases (automaton.setStart case.precedence number) := by
  have others :
      ∀ other ∈ cases,
        ∀ {found : Nat},
          (automaton.setStart case.precedence number).start? other.precedence = some found →
            Has automaton found (lookAt network decisionState other).firstConfigurations := by
    intro other isOther found isStart
    cases single : automaton.byPrecedence with
    | true =>
        simp only [Automaton.setStart, Automaton.start?, single, ↓reduceIte,
          Std.HashMap.getElem?_insert, beq_iff_eq] at isStart
        split at isStart
        · rename_i samePrecedence
          cases isStart
          have same :
              (lookAt network decisionState other).firstConfigurations =
                (lookAt network decisionState case).firstConfigurations := by
            simp [lookAt, samePrecedence]
          exact same ▸ has
        · refine recalls.start other isOther ?_
          simpa only [Automaton.start?, single, ↓reduceIte] using isStart
    | false =>
        simp only [Automaton.setStart, Automaton.start?, single, Bool.false_eq_true, ↓reduceIte,
          Option.some.injEq] at isStart
        subst isStart
        exact settled.same_first isCase isOther (recalls.sameKind ▸ single) ▸ has
  have byPrecedence :
      (automaton.setStart case.precedence number).byPrecedence = automaton.byPrecedence := by
    unfold Automaton.setStart
    split <;> rfl
  have sameState :
      (automaton.setStart case.precedence number).decisionState = automaton.decisionState := by
    unfold Automaton.setStart
    split <;> rfl
  refine ⟨sameState.trans recalls.sameState, byPrecedence.trans recalls.sameKind, ?_, ?_,
    ?_⟩
  · intro other isOther found isStart
    simpa [Has] using others other isOther isStart
  · intro other isOther found successor hasFirst leads
    rw [Automaton.successor?_setStart] at leads
    have kept := recalls.successor other isOther (by simpa [Has] using hasFirst) leads
    simpa [Automaton.verdictOf?] using kept
  · intro keys found isIndexed
    rw [Automaton.index_setStart] at isIndexed
    simpa using recalls.index isIndexed

/-- Remembering a successor leaves the verdicts alone. -/
theorem verdictOf?_setSuccessor
    (automaton : Automaton)
    (number other : Nat)
    (symbol : Int)
    (successor : Successor) :
    (automaton.setSuccessor number symbol successor).verdictOf? other =
      automaton.verdictOf? other := by
  unfold Automaton.verdictOf?
  rw [Automaton.getElem?_states_setSuccessor]
  cases automaton.states[other]? with
  | none => rfl
  | some state =>
      simp only [Option.map_some]
      split <;> rfl

/-- Remembering a successor leaves the configurations alone. -/
theorem has_setSuccessor_iff
    {number other : Nat}
    {symbol : Int}
    {successor : Successor}
    {configurations : Array Configuration} :
    Has (automaton.setSuccessor number symbol successor) other configurations ↔
      Has automaton other configurations := by
  unfold Has
  rw [Automaton.getElem?_states_setSuccessor]
  cases automaton.states[other]? with
  | none => simp
  | some state =>
      simp only [Option.map_some, Option.some.injEq, exists_eq_left']
      split <;> rfl

/-- A successor that is looked up is the one just remembered, or was remembered before. -/
theorem successor?_setSuccessor
    {number other : Nat}
    {symbol type : Int}
    {successor found : Successor}
    (leads :
      (automaton.setSuccessor number symbol successor).successor? other type = some found) :
    number = other ∧ symbol = type ∧ successor = found ∨
      automaton.successor? other type = some found := by
  unfold Automaton.successor? at leads ⊢
  rw [Automaton.getElem?_states_setSuccessor] at leads
  cases present : automaton.states[other]? with
  | none => simp [present] at leads
  | some state =>
      simp only [present, Option.map_some] at leads
      split at leads
      · rename_i sameNumber
        rw [Std.HashMap.getElem?_insert] at leads
        split at leads
        · rename_i sameType
          exact .inl ⟨sameNumber, beq_iff_eq.mp sameType, Option.some.inj leads⟩
        · exact .inr leads
      · exact .inr leads

/-- A successor is remembered where the token of a case leads. -/
theorem setSuccessor
    (settled : Settled network decisionState cases)
    (recalls : Recalls network decisionState cases automaton)
    {case : Case}
    (isCase : case ∈ cases)
    {number target : Nat}
    {verdict : Verdict}
    (has : Has automaton number (lookAt network decisionState case).firstConfigurations)
    (isThere : automaton.verdictOf? target = some verdict)
    (isVerdict : (lookAt network decisionState case).verdict = some verdict) :
    Recalls network decisionState cases
      (automaton.setSuccessor number case.type (.state target)) := by
  refine ⟨recalls.sameState, recalls.sameKind, ?_, ?_, ?_⟩
  · intro other isOther found isStart
    exact has_setSuccessor_iff.mpr (recalls.start other isOther isStart)
  · intro other isOther found successor hasFirst leads
    rw [has_setSuccessor_iff] at hasFirst
    simp only [verdictOf?_setSuccessor]
    rcases successor?_setSuccessor leads with ⟨rfl, sameType, rfl⟩ | ledBefore
    · refine ⟨target, verdict, rfl, isThere, ?_⟩
      obtain ⟨state, present, isFirst⟩ := has
      obtain ⟨state', present', isFirst'⟩ := hasFirst
      rw [present, Option.some.injEq] at present'
      subst present'
      rw [← settled.same_verdict isCase isOther (isFirst.symm.trans isFirst') sameType]
      exact isVerdict
    · exact recalls.successor other isOther hasFirst ledBefore
  · intro keys found isIndexed
    obtain ⟨state, present, right⟩ := recalls.index isIndexed
    rw [Automaton.getElem?_states_setSuccessor, present]
    refine ⟨_, rfl, fun other isOther => ?_⟩
    have right := right other isOther
    split <;> exact right

end Recalls

/-- What a token leads to depends on the configurations of a set alone. -/
theorem reachSet?_congr
    {one other : ConfigurationSet}
    (same : one.configurations = other.configurations)
    (setting : Setting)
    (symbol : Int)
    (fullContext : Bool)
    (store : StackStore) :
    reachSet? setting one symbol fullContext store =
      reachSet? setting other symbol fullContext store := by
  have finished :
      finishedConfigurations setting.network one symbol fullContext =
        finishedConfigurations setting.network other symbol fullContext := by
    simp only [finishedConfigurations, same]
  have moved : moveOver setting.network one symbol = moveOver setting.network other symbol := by
    simp only [moveOver, same]
  simp only [reachSet?, finished, moved]

/-- The state that stands for a set is found under the set's keys. -/
theorem index_addState
    (automaton : Automaton)
    (set : ConfigurationSet)
    (verdict : Option Verdict) :
    (automaton.addState set verdict).2.index[set.keys]? =
      some (automaton.addState set verdict).1 := by
  cases known : automaton.index[set.keys]? with
  | some number =>
      rw [Automaton.addState_of_known known]
      exact known
  | none =>
      rw [Automaton.addState_of_new known]
      simp

/-- A prediction that ends with an alternative would do so from any position. -/
theorem outcomeOf_of_predicted
    {precedence : Int}
    {first alternative : Nat}
    {verdict : Verdict}
    (predicted : outcomeOf precedence first verdict = .predicted alternative)
    (start : Nat) :
    outcomeOf precedence start verdict = .predicted alternative := by
  unfold outcomeOf at predicted ⊢
  cases isGuarded : verdict.guards with
  | none => simpa only [isGuarded] using predicted
  | some guards =>
      simp only [isGuarded] at predicted ⊢
      cases holding : holdingAlternatives precedence guards with
      | nil =>
          simp only [holding] at predicted
          split at predicted <;> cases predicted
      | cons lowest others =>
          rw [holding] at predicted
          cases others <;> exact predicted

section Predicting

variable
  {network : Network}
  {decisionState : Nat}
  {cases : List Case}
  {automaton : Automaton}
  {case : Case}
  (settled : Settled network decisionState cases)
  (recalls : Recalls network decisionState cases automaton)
  (isCase : case ∈ cases)

include settled recalls isCase

/-- Predictions of a case begin with the configurations of the case. -/
theorem startState_of_recalls :
    ∃ number after,
      startState (settingAt network decisionState case.precedence)
          ⟨StackStore.initial, automaton⟩ =
        (number, ⟨StackStore.initial, after⟩) ∧
        Recalls network decisionState cases after ∧
        Has after number (lookAt network decisionState case).firstConfigurations := by
  have precedence :
      (settingAt network decisionState case.precedence).precedence = case.precedence :=
    rfl
  unfold startState
  rw [precedence]
  cases isStart : automaton.start? case.precedence with
  | some number =>
      exact ⟨number, automaton, rfl, recalls, recalls.start case isCase isStart⟩
  | none =>
      have first := settled.firstStore case isCase
      have isFirst :
          (if automaton.byPrecedence then
            filterByPrecedence (settingAt network decisionState case.precedence)
              (startSet (settingAt network decisionState case.precedence) automaton.decisionState
                StackId.empty false StackStore.initial).1
              (startSet (settingAt network decisionState case.precedence) automaton.decisionState
                StackId.empty false StackStore.initial).2
          else
            startSet (settingAt network decisionState case.precedence) automaton.decisionState
              StackId.empty false StackStore.initial) =
            ((firstSet network decisionState case.precedence).1, StackStore.initial) := by
        rw [recalls.sameState, recalls.sameKind]
        change firstSet network decisionState case.precedence = _
        exact Prod.ext rfl first
      simp only [Prod.mk.eta, isFirst]
      have added :=
        @Recalls.addState network decisionState cases automaton recalls
          (firstSet network decisionState case.precedence).1 none ?_
      · have isIndexed :=
          index_addState automaton (firstSet network decisionState case.precedence).1 none
        obtain ⟨state, present, right⟩ := added.index isIndexed
        have has :=
          (⟨state, present, (right case isCase).1 rfl⟩ :
            Has _ _ (lookAt network decisionState case).firstConfigurations)
        refine ⟨_, _, rfl, added.setStart settled isCase has, ?_⟩
        simpa [Has] using has
      · intro other isOther
        refine ⟨fun sameKeys => settled.first_of_keys isCase isOther sameKeys.symm, ?_⟩
        intro sameKeys
        exact absurd sameKeys (settled.keys_apart isCase isOther)

/-- The token of a case leads to the verdict of the case. -/
theorem successor_of_recalls
    {number : Nat}
    (has : Has automaton number (lookAt network decisionState case).firstConfigurations) :
    ∃ target verdict after,
      successor (settingAt network decisionState case.precedence)
          ⟨StackStore.initial, automaton⟩ number case.type =
        (.state target, ⟨StackStore.initial, after⟩) ∧
        Recalls network decisionState cases after ∧
        after.verdictOf? target = some verdict ∧
        (lookAt network decisionState case).verdict = some verdict := by
  unfold successor
  cases leads : automaton.successor? number case.type with
  | some found =>
      obtain ⟨target, verdict, rfl, isThere, isVerdict⟩ :=
        recalls.successor case isCase has leads
      exact ⟨target, verdict, automaton, rfl, recalls, isThere, isVerdict⟩
  | none =>
      obtain ⟨set, verdict, isSecond, isVerdict, _⟩ := settled.settles case isCase
      have reaches :
          reachSet? (settingAt network decisionState case.precedence)
              (automaton.configurationsOf number) case.type false StackStore.initial =
            (some set, StackStore.initial) := by
        obtain ⟨state, present, isFirst⟩ := has
        rw [← isSecond, secondSet?]
        refine reachSet?_congr ?_ _ _ _ _
        rw [Automaton.configurationsOf, present]
        exact isFirst
      have lookVerdict : (lookAt network decisionState case).verdict = some verdict := by
        simp [lookAt, isSecond, isVerdict]
      have lookKeys : (lookAt network decisionState case).secondKeys = some set.keys := by
        simp [lookAt, isSecond]
      have sameNetwork :
          (settingAt network decisionState case.precedence).network = network :=
        rfl
      simp only [computeSuccessor, reaches, sameNetwork, isVerdict]
      have added :=
        @Recalls.addState network decisionState cases automaton recalls set (some verdict) ?_
      · obtain ⟨state, present, right⟩ :=
          added.index (index_addState automaton set (some verdict))
        have isThere :
            (automaton.addState set (some verdict)).2.verdictOf?
                (automaton.addState set (some verdict)).1 = some verdict := by
          rw [Automaton.verdictOf?, present]
          exact ((right case isCase).2 lookKeys).trans lookVerdict
        refine ⟨_, verdict, _, rfl, added.setSuccessor settled isCase ?_ isThere lookVerdict, ?_,
          lookVerdict⟩
        · exact has.addState set (some verdict)
        · rw [Recalls.verdictOf?_setSuccessor]
          exact isThere
      · intro other isOther
        constructor
        · intro sameKeys
          exact absurd (sameKeys ▸ lookKeys) (settled.keys_apart isOther isCase)
        · intro sameKeys
          rw [← lookVerdict]
          exact settled.verdict_of_keys isCase isOther (lookKeys.trans sameKeys.symm)

/--
A case is predicted as by a new automaton, from the one token at hand, and the automaton goes on
having all cases right.
-/
theorem predictRemembered_of_recalls
    {σ : Type}
    [TokenSource σ]
    {tokens : TokenStream σ}
    {start : Nat}
    (isType : (tokens.token start).type = case.type) :
    ∃ after,
      predictRemembered (settingAt network decisionState case.precedence)
          ⟨StackStore.initial, automaton⟩ tokens start =
        (.predicted case.alternative, ⟨StackStore.initial, after⟩, tokens) ∧
        Recalls network decisionState cases after := by
  obtain ⟨number, begun, starts, recalls, has⟩ :=
    startState_of_recalls settled recalls isCase
  obtain ⟨target, verdict, after, leads, recalls, isThere, isVerdict⟩ :=
    successor_of_recalls settled recalls isCase has
  obtain ⟨verdict', sameVerdict, predicted⟩ := settled.exists_verdict isCase
  rw [isVerdict, Option.some.injEq] at sameVerdict
  subst sameVerdict
  have bound : lookaheadBound tokens = tokens.visibleCount + 2 + 1 := rfl
  refine ⟨after, ?_, recalls⟩
  simp only [predictRemembered, starts, bound, followAutomaton, isType, leads, isThere]
  exact congrArg (·, _, tokens) (outcomeOf_of_predicted predicted start)

end Predicting

end Prediction

end GrammarService
