import GrammarService.Proofs.Lexer.Priority

namespace GrammarService

/-!
# A rule between two texts

A rule such as `'/*' .*? '*/'` compiles to a chain of states for its opening text, a star loop over
a wildcard that prefers to leave, and a chain of states for its closing text. `Enclosure.LaidOut`
says so of a network whatever numbers its states have, and `compiled` is such a network for any two
texts.
-/

/-- A text is read from state to state, numbered by how many of its characters were read. -/
def Network.ReadsText
    (network : Network)
    (states : Nat → Nat)
    (text : List Char) :
    Prop :=
  ∀ {position : Nat} {character : Char},
    text[position]? = some character →
      network.HasState (states position) .basic
        [.atom (states (position + 1)) character.toNat]

namespace Lexer

/-! ## The layout -/

/--
Where the states of a rule are that matches an opening text, any characters, and a closing text.
-/
structure Enclosure where
  tokenStart : Nat
  ruleStart : Nat
  ruleStop : Nat
  /-- The state behind so many characters of the opening text. -/
  opening : Nat → Nat
  loopEntry : Nat
  blockStart : Nat
  wildcard : Nat
  blockEnd : Nat
  loopBack : Nat
  loopEnd : Nat
  /-- The state behind so many characters of the closing text. -/
  closing : Nat → Nat

/--
A network is laid out for the only rule of a lexer, which matches an opening text, any characters
and a closing text: a star loop over a wildcard whose entry prefers to leave.
-/
structure Enclosure.LaidOut
    (layout : Enclosure)
    (network : Network)
    (opening closing : List Char) :
    Prop where
  modeStart : network.modeStarts[0]? = some layout.tokenStart
  tokenStart :
    network.HasState layout.tokenStart .tokenStart [.epsilon layout.ruleStart none]
  ruleStart :
    network.HasState layout.ruleStart .ruleStart [.epsilon (layout.opening 0) none]
  readsOpening : network.ReadsText layout.opening opening
  /-- Behind a single character the way leads straight into the loop. -/
  toLoop :
    layout.opening opening.length = layout.loopEntry ∨
      network.HasState (layout.opening opening.length) .basic [.epsilon layout.loopEntry none]
  loopEntry :
    network.HasState layout.loopEntry .starLoopEntry
      [.epsilon layout.loopEnd none, .epsilon layout.blockStart none]
  prefersToLeave : (network.state layout.loopEntry).nonGreedy = true
  blockStart :
    network.HasState layout.blockStart .starBlockStart [.epsilon layout.wildcard none]
  wildcard : network.HasState layout.wildcard .basic [.wildcard layout.blockEnd]
  blockEnd : network.HasState layout.blockEnd .blockEnd [.epsilon layout.loopBack none]
  loopBack : network.HasState layout.loopBack .starLoopBack [.epsilon layout.loopEntry none]
  loopEnd : network.HasState layout.loopEnd .loopEnd [.epsilon (layout.closing 0) none]
  readsClosing : network.ReadsText layout.closing closing
  toStop :
    network.HasState (layout.closing closing.length) .basic [.epsilon layout.ruleStop none]
  ruleStop : network.HasState layout.ruleStop .ruleStop []

/-! ## A network for any two texts -/

/-- A state of the rule with the given edges. -/
def ruleState
    (number : Nat)
    (kind : StateKind)
    (edges : List Edge) :
    Network.State :=
  { Network.State.bare number kind (some 0) with
    edges := edges
    epsilonOnly := !edges.isEmpty && edges.all Edge.isEpsilon }

/-- The states in front of the characters of a text, numbered on from the first one. -/
def spelling
    (first : Nat)
    (text : List Char) :
    List Network.State :=
  text.mapIdx fun position character =>
    ruleState (position + first) .basic [.atom (position + 1 + first) character.toNat]

/-- The number of the entry of the loop; behind a single character it needs no state before it. -/
def entryNumber (opening : List Char) : Nat :=
  opening.length + 3 + if opening.length = 1 then 0 else 1

/-- Where the states are as `compiled` numbers them. -/
def Enclosure.compiled (opening : List Char) : Enclosure where
  tokenStart := 0
  ruleStart := 1
  ruleStop := 2
  opening := (· + 3)
  loopEntry := entryNumber opening
  loopEnd := entryNumber opening + 1
  blockStart := entryNumber opening + 2
  wildcard := entryNumber opening + 3
  blockEnd := entryNumber opening + 4
  loopBack := entryNumber opening + 5
  closing := (· + (entryNumber opening + 6))

/-- The states of the opening text. -/
def statesOfOpening (opening : List Char) : List Network.State :=
  spelling 3 opening ++
    if opening.length = 1 then
      []
    else
      [ruleState (opening.length + 3) .basic [.epsilon (entryNumber opening) none]]

/-- The states up to the loop. -/
def statesBefore (opening : List Char) : List Network.State :=
  [{ ruleState 0 .tokenStart [.epsilon 1 none] with rule := none, decision := some 0 },
    ruleState 1 .ruleStart [.epsilon 3 none],
    ruleState 2 .ruleStop []] ++
  statesOfOpening opening

/-- The states of the loop, which are numbered on from its entry. -/
def statesOfLoop (entry : Nat) : List Network.State :=
  [{ ruleState entry .starLoopEntry [.epsilon (entry + 1) none, .epsilon (entry + 2) none] with
      nonGreedy := true, loopBackState := some (entry + 5), decision := some 1 },
    { ruleState (entry + 1) .loopEnd [.epsilon (entry + 6) none] with
      loopBackState := some (entry + 5) },
    { ruleState (entry + 2) .starBlockStart [.epsilon (entry + 3) none] with
      endState := some (entry + 4) },
    ruleState (entry + 3) .basic [.wildcard (entry + 4)],
    { ruleState (entry + 4) .blockEnd [.epsilon (entry + 5) none] with
      startState := some (entry + 2) },
    ruleState (entry + 5) .starLoopBack [.epsilon entry none]]

/-- The states behind the loop. -/
def statesBehind
    (entry : Nat)
    (closing : List Char) :
    List Network.State :=
  spelling (entry + 6) closing ++
    [ruleState (closing.length + (entry + 6)) .basic [.epsilon 2 none]]

/-- All states, each at the place of its number. -/
def compiledStates (opening closing : List Char) : List Network.State :=
  statesBefore opening ++ statesOfLoop (entryNumber opening) ++
    statesBehind (entryNumber opening) closing

/-- The network of a lexer whose only rule matches the two texts with anything between them. -/
def compiled (opening closing : List Char) : Network where
  kind := .lexer
  maxTokenType := 1
  states := (compiledStates opening closing).toArray
  ruleStarts := #[1]
  ruleStops := #[2]
  ruleTokenTypes := #[1]
  modeStarts := #[0]
  decisions := #[0, entryNumber opening]
  lexerActions := #[]

section Compiled

variable {opening closing : List Char}

theorem length_spelling
    (first : Nat)
    (text : List Char) :
    (spelling first text).length = text.length :=
  List.length_mapIdx

theorem getElem?_spelling
    (first : Nat)
    {text : List Char}
    {position : Nat}
    {character : Char}
    (isNext : text[position]? = some character) :
    (spelling first text)[position]? =
      some
        (ruleState (position + first) .basic
          [.atom (position + 1 + first) character.toNat]) := by
  simp [spelling, isNext]

theorem length_statesBefore : (statesBefore opening).length = entryNumber opening := by
  rw [statesBefore, statesOfOpening, entryNumber]
  split <;> simp [length_spelling]

/-- The states stand at their numbers. -/
theorem state_compiled
    {number : Nat}
    {state : Network.State}
    (present : (compiledStates opening closing)[number]? = some state) :
    (compiled opening closing).state number = state :=
  Network.state_eq_of_getElem? (by simpa [compiled] using present)

/-- A state of the network whose mark fits its edges. -/
theorem hasState_compiled
    {number : Nat}
    {state : Network.State}
    {kind : StateKind}
    {edges : List Edge}
    (present : (compiledStates opening closing)[number]? = some state)
    (isKind : state.kind = kind)
    (isEdges : state.edges = edges)
    (marked : state.epsilonOnly = (!edges.isEmpty && edges.all Edge.isEpsilon)) :
    (compiled opening closing).HasState number kind edges := by
  have isState := state_compiled present
  exact ⟨isState ▸ isKind, isState ▸ isEdges, isState ▸ marked⟩

/-- The loop follows the states before it. -/
theorem getElem?_loop
    (place : Nat)
    {state : Network.State}
    (present : (statesOfLoop (entryNumber opening))[place]? = some state) :
    (compiledStates opening closing)[entryNumber opening + place]? = some state := by
  obtain ⟨within, _⟩ := List.getElem?_eq_some_iff.mp present
  have behind : (statesBefore opening).length ≤ entryNumber opening + place := by
    rw [length_statesBefore]
    exact Nat.le_add_right _ place
  rw [compiledStates, List.append_assoc, List.getElem?_append_right behind, length_statesBefore,
    Nat.add_sub_cancel_left, List.getElem?_append_left within, present]

/-- The opening text follows the first three states. -/
theorem hasState_opening
    {place : Nat}
    {kind : StateKind}
    {edges : List Edge}
    (present :
      (statesOfOpening opening)[place]? = some (ruleState (place + 3) kind edges)) :
    (compiled opening closing).HasState (place + 3) kind edges := by
  have before : (statesBefore opening)[place + 3]? = some (ruleState (place + 3) kind edges) :=
    present
  obtain ⟨within, _⟩ := List.getElem?_eq_some_iff.mp before
  have stands :
      (compiledStates opening closing)[place + 3]? =
        some (ruleState (place + 3) kind edges) := by
    rw [compiledStates, List.append_assoc, List.getElem?_append_left within, before]
  exact hasState_compiled stands rfl rfl rfl

/-- The closing text follows the loop. -/
theorem hasState_behind
    {place : Nat}
    {kind : StateKind}
    {edges : List Edge}
    (present :
      (statesBehind (entryNumber opening) closing)[place]? =
        some (ruleState (place + (entryNumber opening + 6)) kind edges)) :
    (compiled opening closing).HasState (place + (entryNumber opening + 6)) kind edges := by
  have isLength :
      (statesBefore opening ++ statesOfLoop (entryNumber opening)).length =
        entryNumber opening + 6 := by
    rw [List.length_append, length_statesBefore]
    rfl
  have stands :
      (compiledStates opening closing)[place + (entryNumber opening + 6)]? =
        some (ruleState (place + (entryNumber opening + 6)) kind edges) := by
    rw [compiledStates, List.getElem?_append_right (by omega), isLength, Nat.add_sub_cancel,
      present]
  exact hasState_compiled stands rfl rfl rfl

/-- Any two texts have a network that is laid out for them. -/
theorem laidOut_compiled :
    (Enclosure.compiled opening).LaidOut (compiled opening closing) opening closing where
  modeStart := rfl
  tokenStart := hasState_compiled rfl rfl rfl rfl
  ruleStart := hasState_compiled rfl rfl rfl rfl
  readsOpening := by
    intro position character isNext
    refine hasState_opening ?_
    obtain ⟨within, _⟩ := List.getElem?_eq_some_iff.mp isNext
    rw [statesOfOpening, List.getElem?_append_left (by rwa [length_spelling])]
    exact getElem?_spelling 3 isNext
  toLoop := by
    rcases eq_or_ne opening.length 1 with isSingle | notSingle
    · refine .inl ?_
      simp [Enclosure.compiled, entryNumber, isSingle]
    · refine .inr (hasState_opening ?_)
      rw [statesOfOpening, if_neg notSingle, List.getElem?_append_right (by rw [length_spelling]),
        length_spelling, Nat.sub_self]
      rfl
  loopEntry := hasState_compiled (getElem?_loop 0 rfl) rfl rfl rfl
  prefersToLeave := congrArg Network.State.nonGreedy (state_compiled (getElem?_loop 0 rfl))
  blockStart := hasState_compiled (getElem?_loop 2 rfl) rfl rfl rfl
  wildcard := hasState_compiled (getElem?_loop 3 rfl) rfl rfl rfl
  blockEnd := hasState_compiled (getElem?_loop 4 rfl) rfl rfl rfl
  loopBack := hasState_compiled (getElem?_loop 5 rfl) rfl rfl rfl
  loopEnd :=
    hasState_compiled (getElem?_loop 1 rfl) rfl (by simp [ruleState, Enclosure.compiled]) rfl
  readsClosing := by
    intro position character isNext
    refine hasState_behind ?_
    obtain ⟨within, _⟩ := List.getElem?_eq_some_iff.mp isNext
    rw [statesBehind, List.getElem?_append_left (by rwa [length_spelling])]
    exact getElem?_spelling (entryNumber opening + 6) isNext
  toStop := by
    refine hasState_behind ?_
    rw [statesBehind, List.getElem?_append_right (by rw [length_spelling]), length_spelling,
      Nat.sub_self]
    rfl
  ruleStop := hasState_compiled rfl rfl rfl rfl

end Compiled

end Lexer

end GrammarService
