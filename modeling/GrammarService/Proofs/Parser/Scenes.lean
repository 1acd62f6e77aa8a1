import GrammarService.Proofs.Parser.Contexts
import GrammarService.Proofs.Parser.Progress

namespace GrammarService

/-!
# Scenes of a walk

A scene says all about a walk but what it has taken and remembered: where it is, the tree and the
invocations so far, and the visible tokens ahead. Where predictions are settled by the next token, a
scene leads to the next one whatever was taken and remembered, and stretches of a walk are put
together from scenes.
-/

namespace Parser

/-- What is known of a walk, apart from what it has taken and remembered. -/
structure Scene where
  state : Nat
  context : Nat
  nodes : Array ParseTree.RuleNode
  links : Array Link
  precedences : List Int
  recursions : List Link
  ahead : List Token
  /-- A bound on the steps since a token was consumed. -/
  idle : Nat

/-- The plan has a case that settles the decision of a state by an alternative. -/
structure Settles
    (network : Network)
    (plan : List (Nat × List Prediction.Case))
    (state : Nat)
    (case : Prediction.Case) :
    Prop where
  planned :
    ∃ decision decisionState cases,
      (network.state state).decision = some decision ∧
        plan[decision]? = some (decisionState, cases) ∧
          Prediction.Settled network decisionState cases ∧ case ∈ cases
  several : 1 < (network.state state).edges.length
  expected :
    ((nextTokens network state).contains case.type ||
      (nextTokens network state).contains ruleEnd) = true

variable {σ : Type} [TokenSource σ]

/-- A walk is as a scene says, and it remembers no prediction other than the plan's. -/
structure Scene.Depicts
    (network : Network)
    (plan : List (Nat × List Prediction.Case))
    (visible : List Token)
    (scene : Scene)
    (run : Run σ) :
    Prop where
  state : run.state = scene.state
  context : run.context = scene.context
  nodes : run.nodes = scene.nodes
  links : run.links = scene.links
  precedences : run.precedences = scene.precedences
  recursions : run.recursions = scene.recursions
  ahead : Ahead visible run scene.ahead
  idle : run.idleSteps ≤ scene.idle
  remembers : Remembers network plan run.cache

/-- Where the token ahead settles a decision, the walk predicts it. -/
theorem Scene.Depicts.predicts
    {network : Network}
    {plan : List (Nat × List Prediction.Case)}
    {visible rest : List Token}
    {scene : Scene}
    {run : Run σ}
    {case : Prediction.Case}
    {token : Token}
    {outer : List Int}
    (depicts : scene.Depicts network plan visible run)
    (settles : Settles network plan scene.state case)
    (ahead : scene.ahead = token :: rest)
    (isType : token.type = case.type)
    (precedences : scene.precedences = case.precedence :: outer) :
    run.current.type = case.type ∧
      ∃ cache,
        outcome (predict network (network.state run.state)) run.counted =
            (.ok case.alternative, { run.counted with cache := cache }) ∧
          Remembers network plan cache := by
  have aheadOfRun : Ahead visible run (token :: rest) := ahead ▸ depicts.ahead
  have type : run.current.type = case.type := by rw [aheadOfRun.current, isType]
  obtain ⟨decision, decisionState, cases, decides, isPlanned, settled, isCase⟩ := settles.planned
  have precedence : run.precedence = case.precedence := by
    simp [Run.precedence, depicts.precedences, precedences]
  rw [← depicts.state] at decides
  exact ⟨type,
    @outcome_predict σ run.counted _ network plan decision decisionState cases _ case
      depicts.remembers isPlanned settled decides isCase precedence type⟩

variable (σ) in
/-- From a scene a walk comes to another one in so many steps. -/
def Leads
    (grammar : ParserGrammar)
    (plan : List (Nat × List Prediction.Case))
    (visible : List Token)
    (count : Nat)
    (first last : Scene) :
    Prop :=
  ∀ run : Run σ,
    first.Depicts grammar.network plan visible run →
      ∃ after,
        Advances grammar count run after ∧ last.Depicts grammar.network plan visible after

namespace Leads

variable
  {grammar : ParserGrammar}
  {plan : List (Nat × List Prediction.Case)}
  {visible : List Token}
  {count more : Nat}
  {first middle last scene : Scene}

theorem refl (scene : Scene) : Leads σ grammar plan visible 0 scene scene :=
  fun run depicts => ⟨run, .stay, depicts⟩

theorem trans
    (earlier : Leads σ grammar plan visible count first middle)
    (later : Leads σ grammar plan visible more middle last) :
    Leads σ grammar plan visible (count + more) first last := by
  intro run depicts
  obtain ⟨between, advances, depictsBetween⟩ := earlier run depicts
  obtain ⟨after, advancesMore, depictsAfter⟩ := later between depictsBetween
  exact ⟨after, advances.trans advancesMore, depictsAfter⟩

section Inside

variable
  (notIdle : scene.idle < idleLimit grammar.network)
  (inside : (grammar.network.state scene.state).kind ≠ .ruleStop)

include notIdle inside

/-- A free edge is followed, where no other round of a precedence loop can begin. -/
theorem free
    {target : Nat}
    (notEntry : (grammar.network.state scene.state).kind ≠ .starLoopEntry)
    (single : (grammar.network.state scene.state).edges = [.epsilon target none]) :
    Leads σ grammar plan visible 1 scene
      { scene with state := target, idle := scene.idle + 1 } := by
  intro run depicts
  have notIdle' := Nat.lt_of_le_of_lt depicts.idle notIdle
  rw [← depicts.state] at inside notEntry single
  exact ⟨_, .free notIdle' inside notEntry single,
    { depicts with
      state := rfl
      ahead := depicts.ahead.congr rfl rfl
      idle := Nat.succ_le_succ depicts.idle }⟩

/-- The token that an edge asks for is consumed. -/
theorem token
    {target : Nat}
    {token : Token}
    {rest : List Token}
    (ahead : scene.ahead = token :: rest)
    (single : (grammar.network.state scene.state).edges = [.atom target token.type]) :
    Leads σ grammar plan visible 1 scene
      { scene with
        state := target
        nodes := ParseTree.addChild scene.nodes scene.context (.token token)
        ahead := rest
        idle := 0 } := by
  intro run depicts
  have notIdle' := Nat.lt_of_le_of_lt depicts.idle notIdle
  have aheadOfRun : Ahead visible run (token :: rest) := ahead ▸ depicts.ahead
  rw [← depicts.state] at inside single
  rw [← aheadOfRun.current] at single
  refine ⟨_, .token notIdle' inside single,
    { depicts with
      state := rfl
      nodes := ?_
      ahead := aheadOfRun.consumed.congr rfl rfl
      idle := Nat.le_refl 0 }⟩
  simp only [Run.nodes_consumed, depicts.nodes, depicts.context, aheadOfRun.current]

/-- An operator that binds tightly enough is admitted. -/
theorem precedence
    {target : Nat}
    {highest lowest : Int}
    {outer : List Int}
    (single : (grammar.network.state scene.state).edges = [.precedence target highest])
    (precedences : scene.precedences = lowest :: outer)
    (admitted : lowest ≤ highest) :
    Leads σ grammar plan visible 1 scene
      { scene with state := target, idle := scene.idle + 1 } := by
  intro run depicts
  have notIdle' := Nat.lt_of_le_of_lt depicts.idle notIdle
  have admitted' : run.precedence ≤ highest := by
    simpa [Run.precedence, depicts.precedences, precedences] using admitted
  rw [← depicts.state] at inside single
  exact ⟨_, .precedence notIdle' inside single admitted',
    { depicts with
      state := rfl
      ahead := depicts.ahead.congr rfl rfl
      idle := Nat.succ_le_succ depicts.idle }⟩

/-- A rule that is not left-recursive is invoked, and joins the tree at once. -/
theorem call
    {target rule follow caller : Nat}
    {precedence : Int}
    (single :
      (grammar.network.state scene.state).edges = [.call target rule precedence follow])
    (isCaller : (grammar.network.state scene.state).number = caller)
    (plain : (grammar.network.state target).leftRecursiveRule = false)
    (linked : scene.links.size = scene.nodes.size) :
    Leads σ grammar plan visible 1 scene
      { scene with
        state := target
        context := scene.nodes.size
        nodes :=
          ParseTree.addChild (scene.nodes.push ⟨rule, #[]⟩) scene.context
            (.rule scene.nodes.size)
        links := scene.links.push ⟨some scene.context, some caller⟩
        idle := scene.idle + 1 } := by
  intro run depicts
  have notIdle' := Nat.lt_of_le_of_lt depicts.idle notIdle
  have linked' : run.counted.links.size = run.counted.nodes.size := by
    change run.links.size = run.nodes.size
    rw [depicts.links, depicts.nodes, linked]
  rw [← depicts.state] at inside single isCaller
  have invokes := run.counted.invoking_eq linked' grammar.network
    (grammar.network.state run.state).number target rule precedence
  simp only [plain, Bool.false_eq_true, if_false, isCaller] at invokes
  refine ⟨_, .call notIdle' inside single, ?_⟩
  rw [isCaller, invokes]
  exact {
    state := rfl
    context := congrArg Array.size depicts.nodes
    nodes := by
      simp only [Run.counted, depicts.nodes, depicts.context]
    links := by
      simp only [Run.counted, depicts.links, depicts.context]
    precedences := depicts.precedences
    recursions := depicts.recursions
    ahead := depicts.ahead.congr rfl rfl
    idle := Nat.succ_le_succ depicts.idle
    remembers := depicts.remembers }

/-- A left-recursive rule is invoked; it joins the tree at its end. -/
theorem callRecursive
    {target rule follow caller : Nat}
    {precedence : Int}
    (single :
      (grammar.network.state scene.state).edges = [.call target rule precedence follow])
    (isCaller : (grammar.network.state scene.state).number = caller)
    (recursive : (grammar.network.state target).leftRecursiveRule = true)
    (linked : scene.links.size = scene.nodes.size) :
    Leads σ grammar plan visible 1 scene
      { scene with
        state := target
        context := scene.nodes.size
        nodes := scene.nodes.push ⟨rule, #[]⟩
        links := scene.links.push ⟨some scene.context, some caller⟩
        precedences := precedence :: scene.precedences
        recursions := ⟨some scene.context, some caller⟩ :: scene.recursions
        idle := scene.idle + 1 } := by
  intro run depicts
  have notIdle' := Nat.lt_of_le_of_lt depicts.idle notIdle
  have linked' : run.counted.links.size = run.counted.nodes.size := by
    change run.links.size = run.nodes.size
    rw [depicts.links, depicts.nodes, linked]
  rw [← depicts.state] at inside single isCaller
  have invokes := run.counted.invoking_eq linked' grammar.network
    (grammar.network.state run.state).number target rule precedence
  simp only [recursive, if_true, isCaller] at invokes
  refine ⟨_, .call notIdle' inside single, ?_⟩
  rw [isCaller, invokes]
  exact {
    state := rfl
    context := congrArg Array.size depicts.nodes
    nodes := by
      simp only [Run.counted, depicts.nodes]
    links := by
      simp only [Run.counted, depicts.links, depicts.context]
    precedences := by
      simp only [Run.counted, depicts.precedences]
    recursions := by
      simp only [Run.counted, depicts.recursions, depicts.context]
    ahead := depicts.ahead.congr rfl rfl
    idle := Nat.succ_le_succ depicts.idle
    remembers := depicts.remembers }

end Inside

/-- Where the token ahead settles a decision, a free edge is followed. -/
theorem choose
    {case : Prediction.Case}
    {token : Token}
    {rest : List Token}
    {outer : List Int}
    {target : Nat}
    (notIdle : scene.idle < idleLimit grammar.network)
    (inside : (grammar.network.state scene.state).kind ≠ .ruleStop)
    (settles : Settles grammar.network plan scene.state case)
    (ahead : scene.ahead = token :: rest)
    (isType : token.type = case.type)
    (precedences : scene.precedences = case.precedence :: outer)
    (isEdge :
      (grammar.network.state scene.state).edges[case.alternative - 1]? =
        some (.epsilon target none))
    (noRound :
      ((grammar.network.state scene.state).kind = .starLoopEntry &&
        (grammar.network.state scene.state).precedenceDecision &&
        (grammar.network.state target).kind ≠ .loopEnd) = false) :
    Leads σ grammar plan visible 1 scene
      { scene with state := target, idle := scene.idle + 1 } := by
  intro run depicts
  have notIdle' := Nat.lt_of_le_of_lt depicts.idle notIdle
  obtain ⟨type, cache, predicts, remembers⟩ := depicts.predicts settles ahead isType precedences
  have several := settles.several
  have expected := settles.expected
  rw [← type] at expected
  rw [← depicts.state] at inside isEdge several expected noRound
  let chosen : Run σ := { run.counted with cache := cache }
  have crosses :
      outcome (crossEdge grammar (grammar.network.state run.state) (.epsilon target none)) chosen =
        (.ok (), chosen) := by
    simp only [crossEdge, startRound]
    rw [if_neg (by rw [noRound]; decide), outcome_pure]
  exact ⟨_, .predicted notIdle' inside several expected predicts isEdge crosses,
    { depicts with
      state := rfl
      ahead := depicts.ahead.congr rfl rfl
      idle := Nat.succ_le_succ depicts.idle
      remembers := remembers }⟩

/-- Where the token ahead settles to go on, a round of a precedence loop begins. -/
theorem round
    {case : Prediction.Case}
    {token : Token}
    {rest : List Token}
    {outer : List Int}
    {target rule : Nat}
    {children : Array ParseTree.Child}
    {link : Link}
    {others : List Link}
    (notIdle : scene.idle < idleLimit grammar.network)
    (settles : Settles grammar.network plan scene.state case)
    (ahead : scene.ahead = token :: rest)
    (isType : token.type = case.type)
    (precedences : scene.precedences = case.precedence :: outer)
    (isEdge :
      (grammar.network.state scene.state).edges[case.alternative - 1]? =
        some (.epsilon target none))
    (atEntry : (grammar.network.state scene.state).kind = .starLoopEntry)
    (decides : (grammar.network.state scene.state).precedenceDecision = true)
    (goesOn : (grammar.network.state target).kind ≠ .loopEnd)
    (isNode : scene.nodes[scene.context]? = some ⟨rule, children⟩)
    (recursions : scene.recursions = link :: others) :
    Leads σ grammar plan visible 1 scene
      { scene with
        state := target
        context := scene.nodes.size
        nodes :=
          ParseTree.addChild (scene.nodes.push ⟨rule, #[]⟩) scene.nodes.size
            (.rule scene.context)
        links :=
          (scene.links.push link).setIfInBounds scene.context
            ⟨some scene.nodes.size,
              some (grammar.network.ruleStarts.getD
                ((grammar.network.state scene.state).rule.getD 0) 0)⟩
        idle := scene.idle + 1 } := by
  intro run depicts
  have notIdle' := Nat.lt_of_le_of_lt depicts.idle notIdle
  obtain ⟨type, cache, predicts, remembers⟩ := depicts.predicts settles ahead isType precedences
  have several := settles.several
  have expected := settles.expected
  rw [← type] at expected
  have sameRule : run.ruleOf run.context = rule := by
    simp [Run.ruleOf, depicts.nodes, depicts.context, Array.getD_eq_getD_getElem?, isNode]
  have innermost : run.recursions.head? = some link := by
    simp [depicts.recursions, recursions]
  rw [← depicts.state] at isEdge several expected atEntry decides
  have inside : (grammar.network.state run.state).kind ≠ .ruleStop := by simp [atEntry]
  let chosen : Run σ := { run.counted with cache := cache }
  have begins :
      ((grammar.network.state run.state).kind = .starLoopEntry &&
        (grammar.network.state run.state).precedenceDecision &&
        (grammar.network.state target).kind ≠ .loopEnd) = true := by
    simp [atEntry, decides, goesOn]
  have crosses :
      outcome (crossEdge grammar (grammar.network.state run.state) (.epsilon target none)) chosen =
        (.ok (), chosen.inRound grammar.network link (grammar.network.state run.state)) := by
    simp only [crossEdge, startRound]
    rw [if_pos begins]
    simp only [outcome_bind, outcome_get, chosen, Run.counted, innermost, require, outcome_pure,
      outcome_set]
    rfl
  refine ⟨_, .predicted notIdle' inside several expected predicts isEdge crosses, ?_⟩
  exact {
    state := rfl
    context := congrArg Array.size depicts.nodes
    nodes := by
      change
        ParseTree.addChild (run.nodes.push ⟨run.ruleOf run.context, #[]⟩) run.nodes.size
          (.rule run.context) = _
      rw [sameRule, depicts.nodes, depicts.context]
    links := by
      change
        (run.links.push link).setIfInBounds run.context
          ⟨some run.nodes.size,
            some (grammar.network.ruleStarts.getD
              ((grammar.network.state run.state).rule.getD 0) 0)⟩ = _
      rw [depicts.links, depicts.nodes, depicts.context, depicts.state]
    precedences := depicts.precedences
    recursions := depicts.recursions
    ahead := depicts.ahead.congr rfl rfl
    idle := Nat.succ_le_succ depicts.idle
    remembers := remembers }

/-- A rule that is not left-recursive is left for the place behind its invocation. -/
theorem leave
    {parent caller follow : Nat}
    (notIdle : scene.idle < idleLimit grammar.network)
    (stopped : (grammar.network.state scene.state).kind = .ruleStop)
    (plain :
      (grammar.network.state scene.state).rule.any grammar.network.isLeftRecursive = false)
    (linked : scene.links[scene.context]? = some ⟨some parent, some caller⟩)
    (goesOn : grammar.network.followOf? caller = some follow) :
    Leads σ grammar plan visible 1 scene
      { scene with state := follow, context := parent, idle := scene.idle + 1 } := by
  intro run depicts
  have notIdle' := Nat.lt_of_le_of_lt depicts.idle notIdle
  have linked' : run.link run.context = ⟨some parent, some caller⟩ := by
    simp [Run.link, depicts.links, depicts.context, Array.getD_eq_getD_getElem?, linked]
  rw [← depicts.state] at stopped plain
  exact ⟨_, .leave notIdle' stopped plain linked' goesOn,
    { depicts with
      state := rfl
      context := rfl
      ahead := depicts.ahead.congr rfl rfl
      idle := Nat.succ_le_succ depicts.idle }⟩

/-- A left-recursive rule is left for the place behind its invocation, and its tree is attached. -/
theorem leaveRecursion
    {parent caller follow : Nat}
    {precedence : Int}
    {outer : List Int}
    {others : List Link}
    (notIdle : scene.idle < idleLimit grammar.network)
    (stopped : (grammar.network.state scene.state).kind = .ruleStop)
    (recursive :
      (grammar.network.state scene.state).rule.any grammar.network.isLeftRecursive = true)
    (linked : scene.links[scene.context]? = some ⟨some parent, some caller⟩)
    (recursions : scene.recursions = ⟨some parent, some caller⟩ :: others)
    (precedences : scene.precedences = precedence :: outer)
    (goesOn : grammar.network.followOf? caller = some follow) :
    Leads σ grammar plan visible 1 scene
      { scene with
        state := follow
        context := parent
        nodes := ParseTree.addChild scene.nodes parent (.rule scene.context)
        precedences := outer
        recursions := others
        idle := scene.idle + 1 } := by
  intro run depicts
  have notIdle' := Nat.lt_of_le_of_lt depicts.idle notIdle
  have linked' : run.link run.context = ⟨some parent, some caller⟩ := by
    simp [Run.link, depicts.links, depicts.context, Array.getD_eq_getD_getElem?, linked]
  have innermost : run.recursions = ⟨some parent, some caller⟩ :: others := by
    rw [depicts.recursions, recursions]
  rw [← depicts.state] at stopped recursive
  have unchanged :
      (run.links.modify run.context fun link => { link with parent := some parent }) =
        scene.links := by
    refine Array.ext_getElem? fun number => ?_
    rw [Array.getElem?_modify, depicts.links, depicts.context]
    split
    · rename_i same
      rw [← same, linked]
      rfl
    · rfl
  exact ⟨_,
    .leaveRecursion notIdle' stopped recursive (by simp [linked']) innermost rfl goesOn,
    { state := rfl
      context := rfl
      nodes := by
        change ParseTree.addChild run.nodes parent (.rule run.context) = _
        rw [depicts.nodes, depicts.context]
      links := unchanged
      precedences := by
        change run.precedences.tail = outer
        rw [depicts.precedences, precedences]
        rfl
      recursions := rfl
      ahead := depicts.ahead.congr rfl rfl
      idle := Nat.succ_le_succ depicts.idle
      remembers := depicts.remembers }⟩

end Leads

end Parser

end GrammarService
