import GrammarService.Proofs.Parser.Repeating
import GrammarService.Proofs.Prediction.Precedences

namespace GrammarService

/-!
# What is remembered is what would be found out

The states of an automaton are told apart by the keys of their configurations, and a successor was
found out in a store that has grown since. Finding it out again makes no stack that is not there
already, so it comes to configurations with the same keys. At which precedence it is found out makes
no difference; where a precedence loop is decided, each precedence has a start of its own.
-/

namespace Automaton

/-- The keys of the configurations of a state, in order, if the state is there. -/
def keysOf?
    (automaton : Automaton)
    (number : Nat) :
    Option (List Configuration.Key) :=
  automaton.states[number]?.map fun state => state.configurations.keys

/--
Finding out where a token leads from a state gives the configurations of the successor, key by key,
or none if the successor is dead.
-/
def LeadsTo
    (network : Network)
    (store : StackStore)
    (automaton : Automaton)
    (number : Nat)
    (symbol : Int) :
    Successor → Prop
  | .dead =>
      ∀ precedence : Int,
        (Prediction.reachSet? (Parser.settingOf network automaton precedence)
          (automaton.configurationsOf number) symbol false store).1 = none
  | .state target =>
      ∀ precedence : Int,
        ∃ reached,
          (Prediction.reachSet? (Parser.settingOf network automaton precedence)
              (automaton.configurationsOf number) symbol false store).1 = some reached ∧
            automaton.keysOf? target = some reached.keys

/-- Computing the first set at a precedence gives the configurations of a state, key by key. -/
def BeginsIn
    (network : Network)
    (store : StackStore)
    (automaton : Automaton)
    (precedence : Int)
    (number : Nat) :
    Prop :=
  automaton.keysOf? number =
    some
      (Prediction.beginSet (Parser.settingOf network automaton precedence)
        ⟨store, automaton⟩).1.keys

/--
All that an automaton remembers is what would be found out in its store, or any later one, and its
states are indexed by their keys.
-/
structure Faithful
    (network : Network)
    (store : StackStore)
    (automaton : Automaton) :
    Prop where
  leading :
    ∀ {later : StackStore} {number : Nat} {symbol : Int} {successor : Successor},
      store.Extends later →
        automaton.successor? number symbol = some successor →
          automaton.LeadsTo network later number symbol successor
  beginning :
    ∀ {later : StackStore} {precedence : Int} {number : Nat},
      store.Extends later →
        automaton.start? precedence = some number →
          automaton.BeginsIn network later precedence number
  indexed :
    ∀ {keys : List Configuration.Key} {number : Nat},
      automaton.index[keys]? = some number ↔ automaton.keysOf? number = some keys

section Keys

variable {automaton after : Automaton} {network : Network} {store : StackStore} {number : Nat}

/-- A state that is there keeps its keys. -/
theorem Extends.keysOf?
    (extension : automaton.Extends after)
    {keys : List Configuration.Key}
    (isKeys : automaton.keysOf? number = some keys) :
    after.keysOf? number = some keys := by
  obtain ⟨state, present, rfl⟩ := Option.map_eq_some_iff.mp isKeys
  obtain ⟨later, isLater, sameSet, _⟩ := extension.kept present
  exact Option.map_eq_some_iff.mpr ⟨later, isLater, by rw [sameSet]⟩

/-- Remembering a successor leaves the keys alone. -/
@[simp] theorem keysOf?_setSuccessor
    (automaton : Automaton)
    (other : Nat)
    (symbol : Int)
    (successor : Successor)
    (number : Nat) :
    (automaton.setSuccessor other symbol successor).keysOf? number = automaton.keysOf? number := by
  simp only [Automaton.keysOf?, getElem?_states_setSuccessor, Option.map_map]
  congr 1
  funext state
  dsimp only [Function.comp_apply]
  split <;> rfl

/-- Recording a start leaves the keys alone. -/
@[simp] theorem keysOf?_setStart
    (automaton : Automaton)
    (precedence : Int)
    (other number : Nat) :
    (automaton.setStart precedence other).keysOf? number = automaton.keysOf? number := by
  simp only [Automaton.keysOf?, states_setStart]

/-- Only states that are there have successors. -/
theorem lt_size_of_successor?
    {symbol : Int}
    {successor : Successor}
    (known : automaton.successor? number symbol = some successor) :
    number < automaton.states.size := by
  unfold Automaton.successor? at known
  split at known
  · rename_i present
    exact (Array.getElem?_eq_some_iff.mp present).1
  · cases known

/-- A successor that is known was known before, unless it is the one that was remembered. -/
theorem successor?_of_setSuccessor
    {other : Nat}
    {symbol read : Int}
    {successor known : Successor}
    (isKnown :
      (automaton.setSuccessor number symbol successor).successor? other read = some known) :
    (other = number ∧ read = symbol ∧ known = successor) ∨
      automaton.successor? other read = some known := by
  unfold Automaton.successor? at isKnown ⊢
  rw [getElem?_states_setSuccessor] at isKnown
  cases present : automaton.states[other]? with
  | none => simp [present] at isKnown
  | some state =>
      simp only [present, Option.map_some] at isKnown
      dsimp only
      split at isKnown
      · rename_i same
        simp only [Std.HashMap.getElem?_insert, beq_iff_eq] at isKnown
        split at isKnown
        · rename_i isSymbol
          exact .inl ⟨same.symm, isSymbol.symm, (Option.some.inj isKnown).symm⟩
        · exact .inr isKnown
      · exact .inr isKnown

/--
A start that is known was known before, unless it is the one that was recorded: for one precedence
where the decision is about a precedence loop, and else for all.
-/
theorem start?_of_setStart
    {precedence other : Int}
    {known : Nat}
    (isKnown : (automaton.setStart precedence number).start? other = some known) :
    (known = number ∧ (automaton.byPrecedence = true → other = precedence)) ∨
      automaton.start? other = some known := by
  unfold setStart start? at isKnown
  unfold start?
  by_cases byPrecedence : automaton.byPrecedence = true
  · simp only [byPrecedence, if_true, Std.HashMap.getElem?_insert, beq_iff_eq] at isKnown ⊢
    split at isKnown
    · rename_i same
      exact .inl ⟨(Option.some.inj isKnown).symm, fun _ => same.symm⟩
    · exact .inr isKnown
  · simp only [byPrecedence, Bool.false_eq_true, if_false, Option.some.injEq] at isKnown ⊢
    exact .inl ⟨isKnown.symm, by simp⟩

/-- What a token leads to does not change when the automaton grows. -/
theorem LeadsTo.extends
    {symbol : Int}
    {successor : Successor}
    (leads : automaton.LeadsTo network store number symbol successor)
    (extension : automaton.Extends after)
    (valid : number < automaton.states.size) :
    after.LeadsTo network store number symbol successor := by
  cases successor with
  | dead =>
      intro precedence
      rw [Parser.Repeats.settingOf_extends extension, extension.configurationsOf valid]
      exact leads precedence
  | state target =>
      intro precedence
      rw [Parser.Repeats.settingOf_extends extension, extension.configurationsOf valid]
      obtain ⟨reached, isReached, sameKeys⟩ := leads precedence
      exact ⟨reached, isReached, extension.keysOf? sameKeys⟩

/-- What a decision begins with depends on what it is about only. -/
theorem Extends.beginSet
    (extension : automaton.Extends after)
    (setting : Prediction.Setting)
    (store : StackStore) :
    Prediction.beginSet setting ⟨store, after⟩ =
      Prediction.beginSet setting ⟨store, automaton⟩ := by
  simp only [Prediction.beginSet, extension.decisionState, extension.byPrecedence]

/-- What a decision begins with does not change when the automaton grows. -/
theorem BeginsIn.extends
    {precedence : Int}
    (begins : automaton.BeginsIn network store precedence number)
    (extension : automaton.Extends after) :
    after.BeginsIn network store precedence number := by
  unfold BeginsIn at begins ⊢
  rw [Parser.Repeats.settingOf_extends extension, extension.beginSet]
  exact extension.keysOf? begins

end Keys

namespace Faithful

variable {automaton after : Automaton} {network : Network} {store larger : StackStore}

theorem initial
    (network : Network)
    (store : StackStore)
    (decisionState : Nat) :
    (Automaton.initial network decisionState).Faithful network store where
  leading := by simp [Automaton.initial, Automaton.successor?]
  beginning := by simp [Automaton.initial, Automaton.start?]
  indexed := by simp [Automaton.initial, Automaton.keysOf?]

theorem grows
    (faithful : automaton.Faithful network store)
    (extension : store.Extends larger) :
    automaton.Faithful network larger where
  leading isLater := faithful.leading (extension.trans isLater)
  beginning isLater := faithful.beginning (extension.trans isLater)
  indexed := faithful.indexed

/-- No two states have the same keys. -/
theorem eq_of_keysOf?
    (faithful : automaton.Faithful network store)
    {first second : Nat}
    {keys : List Configuration.Key}
    (isFirst : automaton.keysOf? first = some keys)
    (isSecond : automaton.keysOf? second = some keys) :
    first = second :=
  Option.some.inj ((faithful.indexed.mpr isFirst).symm.trans (faithful.indexed.mpr isSecond))

/-- Adding a state keeps the automaton faithful. -/
theorem addState
    (faithful : automaton.Faithful network store)
    (set : ConfigurationSet)
    (verdict : Option Verdict) :
    (automaton.addState set verdict).2.Faithful network store ∧
      (automaton.addState set verdict).2.keysOf? (automaton.addState set verdict).1 =
        some set.keys := by
  have extension := extends_addState automaton set verdict
  have keepsIndex :
      (∀ {keys : List Configuration.Key} {number : Nat},
        (automaton.addState set verdict).2.index[keys]? = some number ↔
          (automaton.addState set verdict).2.keysOf? number = some keys) ∧
      (automaton.addState set verdict).2.keysOf? (automaton.addState set verdict).1 =
        some set.keys := by
    cases known : automaton.index[set.keys]? with
    | some number =>
        rw [addState_of_known known]
        exact ⟨faithful.indexed, faithful.indexed.mp known⟩
    | none =>
        rw [addState_of_new known]
        refine ⟨?_, by simp [Automaton.keysOf?]⟩
        intro keys number
        have indexed := @faithful.indexed keys number
        simp only [Std.HashMap.getElem?_insert, Automaton.keysOf?, Array.getElem?_push,
          beq_iff_eq] at indexed ⊢
        by_cases isLast : number = automaton.states.size
        · subst isLast
          have isMissing : automaton.index[keys]? ≠ some automaton.states.size := by
            rw [Ne, indexed]
            simp
          by_cases same : set.keys = keys <;> simp [same, isMissing]
        · by_cases same : set.keys = keys
          · subst same
            simp [isLast, Ne.symm isLast, ← indexed, known]
          · simp [isLast, same, indexed]
  refine ⟨⟨?_, ?_, keepsIndex.1⟩, keepsIndex.2⟩
  · intro later number symbol successor isLater isKnown
    rw [successor?_addState] at isKnown
    exact (faithful.leading isLater isKnown).extends extension (lt_size_of_successor? isKnown)
  · intro later precedence number isLater isKnown
    rw [start?_addState] at isKnown
    exact (faithful.beginning isLater isKnown).extends extension

/-- Recording a start keeps the automaton faithful if it is what the decision begins with. -/
theorem setStart
    (faithful : automaton.Faithful network store)
    {precedence : Int}
    {number : Nat}
    (missing : automaton.start? precedence = none)
    (begins :
      ∀ {later : StackStore} {other : Int},
        store.Extends later →
          (automaton.byPrecedence = true → other = precedence) →
            automaton.BeginsIn network later other number) :
    (automaton.setStart precedence number).Faithful network store := by
  have extension := extends_setStart missing number
  refine ⟨?_, ?_, ?_⟩
  · intro later other symbol successor isLater isKnown
    rw [successor?_setStart] at isKnown
    exact (faithful.leading isLater isKnown).extends extension (lt_size_of_successor? isKnown)
  · intro later other known isLater isKnown
    rcases start?_of_setStart isKnown with ⟨rfl, isPrecedence⟩ | wasKnown
    · exact (begins isLater isPrecedence).extends extension
    · exact (faithful.beginning isLater wasKnown).extends extension
  · intro keys other
    rw [index_setStart, keysOf?_setStart]
    exact faithful.indexed

/-- Remembering a successor keeps the automaton faithful if it is what the token leads to. -/
theorem setSuccessor
    (faithful : automaton.Faithful network store)
    {number : Nat}
    {symbol : Int}
    {successor : Successor}
    (missing : automaton.successor? number symbol = none)
    (leads :
      ∀ {later : StackStore},
        store.Extends later → automaton.LeadsTo network later number symbol successor) :
    (automaton.setSuccessor number symbol successor).Faithful network store := by
  have extension := extends_setSuccessor missing successor
  refine ⟨?_, ?_, ?_⟩
  · intro later other read known isLater isKnown
    have valid := lt_size_of_successor? isKnown
    rw [Automaton.setSuccessor, Array.size_modify] at valid
    rcases successor?_of_setSuccessor isKnown with ⟨rfl, rfl, rfl⟩ | wasKnown
    · exact (leads isLater).extends extension valid
    · exact (faithful.leading isLater wasKnown).extends extension valid
  · intro later other known isLater isKnown
    exact (faithful.beginning isLater isKnown).extends extension
  · intro keys other
    rw [keysOf?_setSuccessor]
    exact faithful.indexed

end Faithful

end Automaton

namespace Prediction

/-- Where no precedence loop is decided, a decision begins alike at every precedence. -/
theorem beginSet_at
    {memory : Memory}
    (plain : memory.automaton.byPrecedence = false)
    (setting : Setting)
    (precedence : Int) :
    beginSet (setting.at precedence) memory = beginSet setting memory := by
  simp only [beginSet, plain, startSet_at, Bool.false_eq_true, if_false]

/-- A memory goes on from another one, and what it remembers is what would be found out. -/
structure Memory.Faithful
    (network : Network)
    (memory base : Memory) :
    Prop where
  holds : memory.Holds
  extension : base.Extends memory
  automaton : memory.automaton.Faithful network memory.store

section Faithful

variable {network : Network} {memory base : Memory} {precedence : Int}

theorem Memory.Faithful.settingOf_eq
    (faithful : memory.Faithful network base)
    (precedence : Int) :
    Parser.settingOf network base.automaton precedence =
      Parser.settingOf network memory.automaton precedence :=
  (Parser.Repeats.settingOf_extends faithful.extension.automaton network precedence).symm

/-- Computing where predictions start keeps a memory faithful. -/
theorem Memory.Faithful.startState
    (faithful : memory.Faithful network base)
    (missing : memory.automaton.start? precedence = none) :
    (Prediction.startState (Parser.settingOf network base.automaton precedence)
      memory).2.Faithful network base := by
  rw [faithful.settingOf_eq]
  have starts :
      Starts (Parser.settingOf network memory.automaton precedence) memory :=
    faithful.holds.starts
  refine ⟨starts.holds, faithful.extension.trans starts.extension, ?_⟩
  have begins :=
    faithful.holds.repeats_beginSet (Parser.settingOf network memory.automaton precedence)
  have again :
      ∀ {later : StackStore},
        (beginSet (Parser.settingOf network memory.automaton precedence) memory).2.Extends later →
          beginSet (Parser.settingOf network memory.automaton precedence)
              ⟨later, memory.automaton⟩ =
            ((beginSet (Parser.settingOf network memory.automaton precedence) memory).1, later) :=
    begins.again
  rw [startState_of_missing missing]
  have added :=
    (faithful.automaton.grows begins.extension).addState
      (beginSet (Parser.settingOf network memory.automaton precedence) memory).1 none
  have adds :=
    Automaton.extends_addState memory.automaton
      (beginSet (Parser.settingOf network memory.automaton precedence) memory).1 none
  refine added.1.setStart ((Automaton.start?_addState _ _ _ _).trans missing) ?_
  intro later other isLater isPrecedence
  have sameAtOther :
      beginSet (Parser.settingOf network memory.automaton other) ⟨later, memory.automaton⟩ =
        beginSet (Parser.settingOf network memory.automaton precedence)
          ⟨later, memory.automaton⟩ := by
    cases plain : memory.automaton.byPrecedence with
    | true =>
        rw [isPrecedence (adds.byPrecedence.trans plain)]
        rfl
    | false =>
        exact @beginSet_at ⟨later, memory.automaton⟩ plain
          (Parser.settingOf network memory.automaton precedence) other
  unfold Automaton.BeginsIn
  rw [Parser.Repeats.settingOf_extends adds, adds.beginSet, sameAtOther, again isLater]
  exact added.2

/-- Finding out where a token leads keeps a memory faithful. -/
theorem Memory.Faithful.computeSuccessor
    (faithful : memory.Faithful network base)
    {number : Nat}
    {symbol : Int}
    (valid : number < memory.automaton.states.size)
    (missing : memory.automaton.successor? number symbol = none) :
    (Prediction.computeSuccessor (Parser.settingOf network base.automaton precedence) memory
      number symbol).2.Faithful network base := by
  rw [faithful.settingOf_eq]
  have reaches :=
    repeats_reachSet? (Parser.settingOf network memory.automaton precedence) symbol false
      faithful.holds.wellMade (faithful.holds.isIn.configurationsOf number)
  obtain ⟨wellMade, extension, isIn, again⟩ := reaches
  -- The precedence at which the successor is found out makes no difference.
  have atAny :
      ∀ (other : Int) (later : StackStore),
        reachSet? (Parser.settingOf network memory.automaton other)
            (memory.automaton.configurationsOf number) symbol false later =
          reachSet? (Parser.settingOf network memory.automaton precedence)
            (memory.automaton.configurationsOf number) symbol false later :=
    fun other later =>
      reachSet?_at (Parser.settingOf network memory.automaton precedence) other _ symbol later
  have larger := faithful.holds.isIn.grows extension.toGrows
  have stillFaithful := faithful.automaton.grows extension
  unfold Prediction.computeSuccessor
  cases isReached :
      reachSet? (Parser.settingOf network memory.automaton precedence)
        (memory.automaton.configurationsOf number) symbol false memory.store with
  | mk reached? store =>
      rw [isReached] at wellMade extension isIn again larger stillFaithful
      cases reached? with
      | none =>
          refine ⟨⟨wellMade, larger.setSuccessor (by simp) number symbol⟩,
            faithful.extension.trans ⟨extension, Automaton.extends_setSuccessor missing _⟩,
            stillFaithful.setSuccessor missing ?_⟩
          intro later isLater other
          rw [atAny, again isLater]
      | some set =>
          have added := stillFaithful.addState set (verdictOf? network set)
          have adds := Automaton.extends_addState memory.automaton set (verdictOf? network set)
          have present := larger.addState (isIn set rfl) (verdictOf? network set)
          have stillMissing :=
            (Automaton.successor?_addState memory.automaton set (verdictOf? network set) number
              symbol).trans missing
          refine ⟨⟨wellMade, present.1.setSuccessor ?_ number symbol⟩,
            faithful.extension.trans
              ⟨extension, adds.trans (Automaton.extends_setSuccessor stillMissing _)⟩,
            added.1.setSuccessor stillMissing ?_⟩
          · rintro target ⟨⟩
            exact present.2
          · intro later isLater other
            refine ⟨set, ?_, added.2⟩
            rw [Parser.Repeats.settingOf_extends adds, adds.configurationsOf valid, atAny,
              again isLater]

/-- Looking up a successor keeps a memory faithful. -/
theorem Memory.Faithful.successor
    (faithful : memory.Faithful network base)
    {number : Nat}
    (valid : number < memory.automaton.states.size)
    (symbol : Int) :
    (Prediction.successor (Parser.settingOf network base.automaton precedence) memory number
      symbol).2.Faithful network base := by
  unfold Prediction.successor
  split
  · exact faithful
  · rename_i missing
    exact faithful.computeSuccessor valid missing

section Tokens

variable {σ : Type} [TokenSource σ]

/-- Following the automaton keeps a memory faithful. -/
theorem Memory.Faithful.followAutomaton
    (start limit : Nat)
    {number : Nat}
    (index : Nat)
    (faithful : memory.Faithful network base)
    (valid : number < memory.automaton.states.size)
    (tokens : TokenStream σ) :
    (Prediction.followAutomaton (Parser.settingOf network base.automaton precedence) start limit
      number index memory tokens).2.1.Faithful network base := by
  induction limit generalizing number index memory tokens with
  | zero => exact faithful
  | succ limit inductionHypothesis =>
      have succeeds :
          Succeeds (Parser.settingOf network base.automaton precedence) memory number
            (tokens.token index).type :=
        faithful.holds.succeeds valid _
      have found := @Memory.Faithful.successor _ _ _ precedence faithful _ valid
        (tokens.token index).type
      rw [followAutomaton_succ_settle]
      dsimp only [settle]
      split
      · split <;> exact found
      · split
        · exact found
        · rename_i isNext _ _
          exact inductionHypothesis _ found (succeeds.valid isNext) _

/-- A prediction without the real rule invocations keeps a memory faithful. -/
theorem Memory.Faithful.predictRemembered
    (faithful : memory.Faithful network base)
    (tokens : TokenStream σ)
    (start : Nat) :
    (Prediction.predictRemembered (Parser.settingOf network base.automaton precedence) memory
      tokens start).2.1.Faithful network base := by
  have starts :
      Starts (Parser.settingOf network base.automaton precedence) memory :=
    faithful.holds.starts
  refine Memory.Faithful.followAutomaton start _ start ?_ starts.valid tokens
  cases known : memory.automaton.start? precedence with
  | some number =>
      rw [startState_of_recorded known]
      exact faithful
  | none => exact faithful.startState known

/-- Simulating tokens only extends a store. -/
theorem extends_simulateTokens
    (setting : Setting)
    (limit index : Nat)
    {set : ConfigurationSet}
    {store : StackStore}
    (wellMade : store.WellMade)
    (isIn : set.IsIn store)
    (tokens : TokenStream σ) :
    (simulateTokens setting limit set index store tokens).2.1.WellMade ∧
      store.Extends (simulateTokens setting limit set index store tokens).2.1 := by
  induction limit generalizing set index store tokens with
  | zero => exact ⟨wellMade, .refl store⟩
  | succ limit inductionHypothesis =>
      have reaches := repeats_reachSet? setting (tokens.token index).type true wellMade isIn
      rw [simulateTokens_succ_settle]
      dsimp only [settleInContext]
      split
      · split <;> exact ⟨reaches.wellMade, reaches.extension⟩
      · split
        · exact ⟨reaches.wellMade, reaches.extension⟩
        · rename_i isReached _ _
          have later :=
            inductionHypothesis (nextIndex tokens index).1 reaches.wellMade
              (reaches.valid _ isReached) (nextIndex tokens index).2
          exact ⟨later.1, reaches.extension.trans later.2⟩

/-- A prediction in context only extends a store. -/
theorem extends_predictInContext
    (setting : Setting)
    (decisionState : Nat)
    (returnStates : List Nat)
    {store : StackStore}
    (wellMade : store.WellMade)
    (tokens : TokenStream σ)
    (start : Nat) :
    (predictInContext setting decisionState returnStates store tokens start).2.1.WellMade ∧
      store.Extends
        (predictInContext setting decisionState returnStates store tokens start).2.1 := by
  have pushes := repeats_ofReturnStates wellMade returnStates
  have begins := repeats_startSet setting decisionState true pushes.wellMade pushes.valid
  have simulated :=
    extends_simulateTokens setting (lookaheadBound tokens) start begins.wellMade begins.valid
      tokens
  exact ⟨simulated.1, (pushes.extension.trans begins.extension).trans simulated.2⟩

end Tokens

end Faithful

end Prediction

namespace PredictionCache

/-- What a cache remembers of its decisions is what would be found out. -/
structure Faithful
    (network : Network)
    (cache : PredictionCache) :
    Prop where
  holds : cache.Holds
  each :
    ∀ {decision : Nat} {automaton : Automaton},
      cache.automata[decision]? = some automaton → automaton.Faithful network cache.store

/-- Whatever was predicted before, what a cache remembers is what would be found out. -/
theorem Reachable.isFaithful
    {network : Network}
    {cache : PredictionCache}
    (reachable : cache.Reachable network) :
    cache.Faithful network := by
  induction reachable with
  | initial =>
      refine ⟨holds_initial network, ?_⟩
      intro decision automaton present
      simp only [PredictionCache.initial, Array.getElem?_map, Option.map_eq_some_iff] at present
      obtain ⟨decisionState, _, rfl⟩ := present
      exact .initial network _ decisionState
  | @remembered σ _ cache predicted decision start precedence tokens _ wasPresent
      inductionHypothesis =>
      obtain ⟨holds, each⟩ := inductionHypothesis
      have before : Prediction.Memory.Faithful network ⟨cache.store, predicted⟩
          ⟨cache.store, predicted⟩ :=
        ⟨⟨holds.wellMade, holds.each wasPresent⟩, .refl _, each wasPresent⟩
      have after :=
        @Prediction.Memory.Faithful.predictRemembered _ _ _ precedence σ _ before tokens start
      refine ⟨(holds.remember wasPresent after.holds after.extension).1, ?_⟩
      intro other automaton present
      simp only [remember, Array.getElem?_setIfInBounds] at present
      split at present
      · split at present
        · cases present
          exact after.automaton
        · cases present
      · exact (each present).grows after.extension.store
  | @inContext σ _ cache predicted decision start precedence returnStates tokens _ _
      inductionHypothesis =>
      obtain ⟨holds, each⟩ := inductionHypothesis
      obtain ⟨wellMade, extension⟩ :=
        Prediction.extends_predictInContext (Parser.settingOf network predicted precedence)
          predicted.decisionState returnStates holds.wellMade tokens start
      exact ⟨(holds.withStore wellMade extension).1,
        fun present => (each present).grows extension⟩

/--
Automata are faithful memories. Whatever was predicted before, at any decisions and precedences and
with or without the real rule invocations: where a successor is remembered, finding out again where
the token leads comes to the keys of that state, or to nothing if the successor is dead; where a
start is remembered for a precedence, computing the first set again at that precedence comes to the
keys of that state; and no two states of an automaton have the same keys.
-/
theorem Reachable.finds_what_is_remembered
    {network : Network}
    {cache : PredictionCache}
    (reachable : cache.Reachable network)
    {decision : Nat}
    {automaton : Automaton}
    (present : cache.automata[decision]? = some automaton) :
    (∀ {number : Nat} {symbol : Int} {successor : Successor},
      automaton.successor? number symbol = some successor →
        automaton.LeadsTo network cache.store number symbol successor) ∧
    (∀ {precedence : Int} {number : Nat},
      automaton.start? precedence = some number →
        automaton.BeginsIn network cache.store precedence number) ∧
    ∀ {first second : Nat} {keys : List Configuration.Key},
      automaton.keysOf? first = some keys →
        automaton.keysOf? second = some keys → first = second := by
  have faithful := reachable.isFaithful.each present
  exact ⟨faithful.leading (.refl _), faithful.beginning (.refl _), faithful.eq_of_keysOf?⟩

end PredictionCache

namespace Prediction.SharedState

set_option maxRecDepth 20000 in
/--
What was found out about `A` and `Z` at the first decision, and where its predictions begin, is
found out again.
-/
theorem finds_what_cache_remembers :
    cache.Reachable network ∧
      cache.automata[0]? = some (predicted empty [1, 5]).2.1.automaton ∧
        (predicted empty [1, 5]).2.1.automaton.successor? 1 5 = some (.state 2) ∧
          (predicted empty [1, 5]).2.1.automaton.LeadsTo network cache.store 1 5 (.state 2) ∧
            (predicted empty [1, 5]).2.1.automaton.start? 0 = some 0 ∧
              (predicted empty [1, 5]).2.1.automaton.BeginsIn network cache.store 0 0 := by
  have found := reachable_cache.finds_what_is_remembered automata_cache
  -- Both are read off the automaton at once, so that the prediction is computed only once.
  have known :
      (fun automaton : Automaton => (automaton.successor? 1 5, automaton.start? 0))
          (predicted empty [1, 5]).2.1.automaton =
        (some (.state 2), some 0) := by
    cbv
  obtain ⟨leads, begins⟩ := Prod.mk.inj known
  exact ⟨reachable_cache, automata_cache, leads, found.1 leads, begins, found.2.1 begins⟩

end Prediction.SharedState

end GrammarService
