import GrammarService.Proofs.Parser.Walks

namespace GrammarService

/-!
# What a step of a walk can do

A step that succeeds has looked at tokens and then moved the walk in one of a few ways. What walks
keep is proved for these moves.
-/

namespace Parser

variable {σ : Type} [TokenSource σ] {run after : Run σ}

namespace Run

/-- The walk behind the current token, which is added to the tree. -/
def consumed (run : Run σ) : Run σ :=
  let (position, tokens) :=
    if run.current.isEnd then
      (run.position, run.tokens)
    else
      run.tokens.nextVisible (run.position + 1)
  { run with
    nodes := ParseTree.addChild run.nodes run.context (.token run.current)
    position := position
    tokens := tokens
    idleSteps := 0 }

@[simp] theorem nodes_consumed (run : Run σ) :
    run.consumed.nodes =
      ParseTree.addChild run.nodes run.context (.token run.current) :=
  rfl

@[simp] theorem links_consumed (run : Run σ) : run.consumed.links = run.links :=
  rfl

@[simp] theorem context_consumed (run : Run σ) : run.consumed.context = run.context :=
  rfl

@[simp] theorem recursions_consumed (run : Run σ) : run.consumed.recursions = run.recursions :=
  rfl

/-- The walk once a precedence loop goes into another round. -/
def inRound
    (run : Run σ)
    (network : Network)
    (outer : Link)
    (state : Network.State) :
    Run σ :=
  (run.addContext outer (run.ruleOf run.context)).wrapContext run.nodes.size
    (network.ruleStarts.getD (state.rule.getD 0) 0)

/-- The walk once a rule was invoked. -/
def invoking
    (run : Run σ)
    (network : Network)
    (caller target rule : Nat)
    (precedence : Int) :
    Run σ :=
  let added := run.addContext ⟨some run.context, some caller⟩ rule
  if (network.state target).leftRecursiveRule then
    added.enterRecursion run.nodes.size target precedence
  else
    added.enterRule run.nodes.size target

omit [TokenSource σ] in
/-- An invoked rule joins the tree at once, unless it is left-recursive. -/
theorem invoking_eq
    {run : Run σ}
    (linked : run.links.size = run.nodes.size)
    (network : Network)
    (caller target rule : Nat)
    (precedence : Int) :
    run.invoking network caller target rule precedence =
      let recursive := (network.state target).leftRecursiveRule
      { run with
        nodes :=
          if recursive then
            run.nodes.push ⟨rule, #[]⟩
          else
            ParseTree.addChild (run.nodes.push ⟨rule, #[]⟩) run.context (.rule run.nodes.size)
        links := run.links.push ⟨some run.context, some caller⟩
        context := run.nodes.size
        state := target
        precedences := if recursive then precedence :: run.precedences else run.precedences
        recursions :=
          if recursive then
            ⟨some run.context, some caller⟩ :: run.recursions
          else
            run.recursions } := by
  have newLink :
      (run.links.push ⟨some run.context, some caller⟩)[run.nodes.size]? =
        some ⟨some run.context, some caller⟩ := by
    simp [← linked]
  cases recursive : (network.state target).leftRecursiveRule with
  | true =>
      simp [invoking, recursive, addContext, enterRecursion, link,
        Array.getD_eq_getD_getElem?, newLink]
  | false =>
      simp [invoking, recursive, addContext, enterRule, link, attach,
        Array.getD_eq_getD_getElem?, newLink]

end Run

/-- What a step of a walk can do when it succeeds, apart from looking at tokens. -/
inductive Moves
    (network : Network)
    (before : Run σ) :
    Run σ → Prop where
  | free
      {edge : Edge}
      (inside : (network.state before.state).kind ≠ .ruleStop)
      (present : edge ∈ (network.state before.state).edges)
      (isFree : edge.isFree = true) :
      Moves network before { before with state := edge.target }
  | round
      {edge : Edge}
      {outer : Link}
      (inside : (network.state before.state).kind ≠ .ruleStop)
      (present : edge ∈ (network.state before.state).edges)
      (isFree : edge.isFree = true)
      (atEntry : (network.state before.state).kind = .starLoopEntry)
      (decides : (network.state before.state).precedenceDecision = true)
      (goesOn : (network.state edge.target).kind ≠ .loopEnd)
      (recursive : before.recursions.head? = some outer) :
      Moves network before
        { before.inRound network outer (network.state before.state) with
          state := edge.target }
  | token
      {edge : Edge}
      (inside : (network.state before.state).kind ≠ .ruleStop)
      (present : edge ∈ (network.state before.state).edges)
      (admitted : edge.admits before.current.type = true) :
      Moves network before { before.consumed with state := edge.target }
  | call
      {target rule follow : Nat}
      {precedence : Int}
      (inside : (network.state before.state).kind ≠ .ruleStop)
      (present :
        Edge.call target rule precedence follow ∈ (network.state before.state).edges) :
      Moves network before
        { before.invoking network (network.state before.state).number target rule precedence
          with state := target }
  | leave
      {parent caller follow : Nat}
      (stopped : (network.state before.state).kind = .ruleStop)
      (plain :
        (network.state before.state).rule.any network.isLeftRecursive = false)
      (linked : before.link before.context = ⟨some parent, some caller⟩)
      (goesOn : network.followOf? caller = some follow) :
      Moves network before { before with context := parent, state := follow }
  | leaveRecursion
      {outer : Link}
      {recursions : List Link}
      {caller follow : Nat}
      (stopped : (network.state before.state).kind = .ruleStop)
      (recursive :
        (network.state before.state).rule.any network.isLeftRecursive = true)
      (innermost : before.recursions = outer :: recursions)
      (linked : outer.caller = some caller)
      (goesOn : network.followOf? caller = some follow) :
      Moves network before
        { { before with recursions := recursions }.leaveRecursion outer.parent with
          state := follow }

@[simp] theorem outcome_consume (run : Run σ) :
    outcome consume run = (.ok (), run.consumed) :=
  rfl

/-- Whatever is consumed has a type that a grammar can define. -/
theorem Ends.of_consumeAny
    {grammar : ParserGrammar}
    (ends : Ends (consumeAny grammar) run () after) :
    minTokenType ≤ run.current.type ∧ run.consumed = after := by
  simp only [consumeAny, ends_bind_iff, ends_get_iff] at ends
  obtain ⟨_, _, ⟨rfl, rfl⟩, ends⟩ := ends
  split at ends
  · simp at ends
  · exact ⟨by omega, by simpa [Ends] using ends⟩

/-- A token that is consumed is admitted by the edge. -/
theorem Ends.admits_of_crossEdge
    {grammar : ParserGrammar}
    {state : Network.State}
    {edge : Edge}
    (ends : Ends (crossEdge grammar state edge) run () after)
    (consuming : edge.isEpsilon = false) :
    edge.admits run.current.type = true ∧ run.consumed = after := by
  have listed :
      Ends
        (do
          if edge.consumes (← get).current.type minTokenType maxSetTokenType then
            consumeAny grammar
          else
            rejectCurrent grammar : Walk σ Unit) run () after →
        edge.consumes run.current.type minTokenType maxSetTokenType = true ∧
          minTokenType ≤ run.current.type ∧ run.consumed = after := by
    intro ends
    simp only [ends_bind_iff, ends_get_iff] at ends
    obtain ⟨_, _, ⟨rfl, rfl⟩, ends⟩ := ends
    split at ends
    · rename_i consumes
      exact ⟨consumes, ends.of_consumeAny⟩
    · simp at ends
  cases edge with
  | atom target label =>
      simp only [crossEdge, ends_bind_iff, ends_get_iff] at ends
      obtain ⟨_, _, ⟨rfl, rfl⟩, ends⟩ := ends
      split at ends
      · rename_i same
        exact ⟨by simp [Edge.admits, same], by simpa [Ends] using ends⟩
      · simp at ends
  | wildcard target =>
      obtain ⟨atLeast, rfl⟩ := Ends.of_consumeAny ends
      exact ⟨by simpa [Edge.admits] using atLeast, rfl⟩
  | range target first last =>
      obtain ⟨consumes, atLeast, rfl⟩ := listed ends
      exact ⟨by simp [Edge.admits, consumes, atLeast], rfl⟩
  | set target symbols =>
      obtain ⟨consumes, atLeast, rfl⟩ := listed ends
      exact ⟨by simp [Edge.admits, consumes, atLeast], rfl⟩
  | notSet target symbols =>
      obtain ⟨consumes, atLeast, rfl⟩ := listed ends
      exact ⟨by simp [Edge.admits, consumes, atLeast], rfl⟩
  | _ => cases consuming

/-- Crossing an edge is one of the moves. -/
theorem Ends.moves_of_crossEdge
    {grammar : ParserGrammar}
    {edge : Edge}
    (inside : (grammar.network.state run.state).kind ≠ .ruleStop)
    (present : edge ∈ (grammar.network.state run.state).edges)
    (ends : Ends (crossEdge grammar (grammar.network.state run.state) edge) run () after) :
    Moves grammar.network run { after with state := edge.target } := by
  cases epsilon : edge.isEpsilon with
  | false =>
      obtain ⟨admitted, rfl⟩ := ends.admits_of_crossEdge epsilon
      exact .token inside present admitted
  | true =>
      cases edge with
      | epsilon target outermost =>
          simp only [crossEdge, startRound] at ends
          split at ends
          · rename_i starts
            simp only [Bool.and_eq_true, decide_eq_true_eq] at starts
            simp only [ends_bind_iff, ends_get_iff, ends_require_iff, ends_set_iff] at ends
            obtain ⟨_, _, ⟨rfl, rfl⟩, outer, _, ⟨innermost, rfl⟩, rfl⟩ := ends
            exact .round inside present rfl starts.1.1 starts.1.2 starts.2 innermost
          · rw [ends_pure_iff] at ends
            exact ends.2 ▸ .free inside present rfl
      | call target rule precedence follow =>
          simp only [crossEdge, invokeRule, ends_modify_iff] at ends
          exact ends ▸ .call inside present
      | predicate | action =>
          rw [crossEdge, ends_pure_iff] at ends
          exact ends.2 ▸ .free inside present rfl
      | precedence target highest =>
          simp only [crossEdge, checkPrecedence, ends_bind_iff, ends_get_iff] at ends
          obtain ⟨_, _, ⟨rfl, rfl⟩, ends⟩ := ends
          split at ends
          · simp at ends
          · rw [ends_pure_iff] at ends
            exact ends.2 ▸ .free inside present rfl
      | _ => cases epsilon

/-- Leaving a state inside a rule is one of the moves, once tokens were looked at. -/
theorem Ends.moves_of_leaveState
    {grammar : ParserGrammar}
    (inside : (grammar.network.state run.state).kind ≠ .ruleStop)
    (ends : Ends (leaveState grammar) run () after) :
    ∃ between, Quiet run between ∧ Moves grammar.network between after := by
  obtain ⟨_, _, got, ends⟩ := ends_bind_iff.mp ends
  obtain ⟨rfl, rfl⟩ := ends_get_iff.mp got
  dsimp only at ends
  have crossed :
      ∀ {alternative : Nat} {between : Run σ},
        Quiet run between →
          Ends
            (do
              let edge ←
                require (grammar.network.state run.state).edges[alternative - 1]? .noEdge
              crossEdge grammar (grammar.network.state run.state) edge
              modify fun run => { run with state := edge.target } : Walk σ Unit)
            between () after →
              ∃ between, Quiet run between ∧ Moves grammar.network between after := by
    intro alternative between quiet goesOn
    simp only [ends_bind_iff, ends_require_iff, ends_modify_iff] at goesOn
    obtain ⟨edge, _, ⟨isEdge, rfl⟩, _, crossedTo, crosses, rfl⟩ := goesOn
    have sameState : between.state = run.state := by
      rw [quiet.same]
    rw [← sameState] at inside crosses isEdge
    exact ⟨between, quiet,
      crosses.moves_of_crossEdge inside (List.mem_of_getElem? isEdge)⟩
  split at ends
  · obtain ⟨_, _, checked, ends⟩ := ends_bind_iff.mp ends
    obtain ⟨_, _, predicted, ends⟩ := ends_bind_iff.mp ends
    exact crossed (checked.quiet_checkCurrent.trans predicted.quiet_predict) ends
  · obtain ⟨_, _, isFirst, ends⟩ := ends_bind_iff.mp ends
    obtain ⟨rfl, rfl⟩ := ends_pure_iff.mp isFirst
    exact crossed (.refl run) ends

/-- Leaving a rule is one of the moves. -/
theorem Ends.moves_of_leaveRule
    {network : Network}
    (stopped : (network.state run.state).kind = .ruleStop)
    (ends : Ends (leaveRule network) run () after) :
    Moves network run after := by
  obtain ⟨_, _, got, ends⟩ := ends_bind_iff.mp ends
  obtain ⟨rfl, rfl⟩ := ends_get_iff.mp got
  dsimp only at ends
  split at ends
  · rename_i recursive
    cases innermost : run.recursions with
    | nil => simp [innermost, ends_bind_iff] at ends
    | cons outer recursions =>
        simp only [innermost, ends_bind_iff, ends_set_iff, ends_pure_iff, ends_require_iff,
          ends_modify_iff] at ends
        obtain ⟨_, _, rfl, _, _, ⟨rfl, rfl⟩, _, _, ⟨follows, rfl⟩, rfl⟩ := ends
        obtain ⟨caller, linked, goesOn⟩ := Option.bind_eq_some_iff.mp follows
        exact .leaveRecursion stopped recursive innermost linked goesOn
  · rename_i plain
    simp only [ends_bind_iff, ends_require_iff, ends_set_iff, ends_pure_iff,
      ends_modify_iff] at ends
    obtain ⟨parent, _, ⟨linked, rfl⟩, _, _, rfl, _, _, ⟨rfl, rfl⟩, _, _, ⟨follows, rfl⟩,
      rfl⟩ := ends
    obtain ⟨caller, isCaller, goesOn⟩ := Option.bind_eq_some_iff.mp follows
    refine .leave stopped (by simpa using plain) ?_ goesOn
    cases link : run.link run.context with
    | mk known called =>
        rw [link] at linked isCaller
        simp_all

/-- A step is one of the moves, once tokens were looked at. -/
theorem Ends.moves_of_stepOnce
    {grammar : ParserGrammar}
    (ends : Ends (stepOnce grammar) run () after) :
    ∃ between, Quiet run between ∧ Moves grammar.network between after := by
  obtain ⟨_, _, got, ends⟩ := ends_bind_iff.mp ends
  obtain ⟨rfl, rfl⟩ := ends_get_iff.mp got
  split at ends
  · exact ⟨run, .refl run, ends.moves_of_leaveRule (by assumption)⟩
  · exact ends.moves_of_leaveState (by assumption)

end Parser

end GrammarService
