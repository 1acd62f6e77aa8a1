import GrammarService.Proofs.Parser.Progress
import GrammarService.Proofs.Parser.Rounds
import GrammarService.Proofs.Parser.Soundness

namespace GrammarService

/-!
# Which rules a walk refers to

A walk takes rule numbers from calls, which are checked when a network is read, and from the states
that it comes to, which are not. Calls give the rules of its contexts. For the rule that a state
names it looks up the start: when it leaves the rule, and when a precedence loop goes into another
round.
-/

namespace Network

/-- A state says that it belongs to a rule, and the rule exists. -/
def NamesRule
    (network : Network)
    (rule : Option Nat) :
    Prop :=
  ∃ number, rule = some number ∧ number < network.ruleCount

/-- A state that decides on precedence names a rule that exists, or it would not be marked. -/
theorem Coherent.namesRule_of_precedenceDecision
    {network : Network}
    (coherent : network.Coherent)
    {number : Nat}
    (decides : (network.state number).precedenceDecision = true) :
    network.NamesRule (network.state number).rule := by
  have marked := coherent.precedenceDecision decides
  simp only [decidesPrecedence, Bool.and_eq_true] at marked
  obtain ⟨⟨-, recursive⟩, -⟩ := marked
  split at recursive
  · rename_i start isStart
    obtain ⟨rule, names, isListed⟩ := Option.bind_eq_some_iff.mp isStart
    exact ⟨rule, names, (Array.getElem?_eq_some_iff.mp isListed).1⟩
  · cases recursive

end Network

namespace Parser

variable {σ : Type} {run after : Run σ}

section Contexts

/-- The rules of all contexts of a walk exist. -/
structure Run.Ruled
    (network : Network)
    (run : Run σ) :
    Prop where
  rooted : run.Rooted
  ruled : ∀ rule ∈ run.nodes.map ParseTree.RuleNode.rule, rule < network.ruleCount

/-- A node keeps its rule when it is given a child. -/
@[simp] theorem map_rule_addChild
    (nodes : Array ParseTree.RuleNode)
    (parent : Nat)
    (added : ParseTree.Child) :
    (ParseTree.addChild nodes parent added).map ParseTree.RuleNode.rule =
      nodes.map ParseTree.RuleNode.rule := by
  apply Array.ext_getElem?
  intro place
  simp only [ParseTree.addChild, Array.getElem?_map, Array.getElem?_modify]
  split
  · cases nodes[place]? <;> rfl
  · rfl

namespace Run.Ruled

variable {network : Network}

/-- The rule of the innermost context exists. -/
theorem ruleOf_context (ruled : run.Ruled network) :
    run.ruleOf run.context < network.ruleCount := by
  apply ruled.ruled
  rw [Array.mem_map]
  have inBounds := ruled.rooted.context
  exact ⟨run.nodes[run.context], Array.getElem_mem inBounds,
    by simp [Run.ruleOf, Array.getD_eq_getD_getElem?, inBounds]⟩

/-- Contexts are ruled by what they were ruled by, and by rules that were added. -/
theorem of_push
    (ruled : run.Ruled network)
    (rooted : after.Rooted)
    {rule : Nat}
    (inRules : rule < network.ruleCount)
    (nodes :
      after.nodes.map ParseTree.RuleNode.rule =
        (run.nodes.map ParseTree.RuleNode.rule).push rule) :
    after.Ruled network := by
  refine ⟨rooted, ?_⟩
  intro other member
  rw [nodes] at member
  rcases Array.mem_push.mp member with isOld | rfl
  · exact ruled.ruled other isOld
  · exact inRules

/-- Contexts are ruled as before when none was added. -/
theorem of_same
    (ruled : run.Ruled network)
    (rooted : after.Rooted)
    (nodes :
      after.nodes.map ParseTree.RuleNode.rule = run.nodes.map ParseTree.RuleNode.rule) :
    after.Ruled network :=
  ⟨rooted, nodes ▸ ruled.ruled⟩

variable [TokenSource σ]

/-- The first context is ruled by the rule that the walk begins with. -/
theorem begun
    (tokens : TokenStream σ)
    (cache : PredictionCache)
    {first : Nat}
    (inRules : first < network.ruleCount) :
    ((Run.start tokens cache).begun network first).Ruled network := by
  refine ⟨.begun tokens cache network first, ?_⟩
  have nodes :
      ((Run.start tokens cache).begun network first).nodes.map ParseTree.RuleNode.rule =
        #[first] := by
    unfold Run.begun
    split
    · simp [Run.enterRecursion, Run.addContext, Run.start]
    · simp [Run.enterRule, Run.addContext, Run.start, Run.link]
  simpa [nodes] using inRules

/-- Rules that a step brings in come from calls, and those were checked. -/
theorem moves
    (coherent : network.Coherent)
    (ruled : run.Ruled network)
    (moves : Moves network run after) :
    after.Ruled network := by
  have rooted := ruled.rooted.moves moves
  cases moves with
  | free => exact ruled.of_same rooted rfl
  | token => exact ruled.of_same rooted (by simp)
  | round =>
      refine ruled.of_push rooted ruled.ruleOf_context ?_
      simp [Run.inRound, Run.wrapContext, Run.attach, Run.addContext]
  | call _ isCall =>
      refine ruled.of_push rooted (coherent.call isCall).1 ?_
      rw [Run.invoking_eq ruled.rooted.linked]
      dsimp only
      split <;> simp
  | leave => exact ruled.of_same rooted rfl
  | @leaveRecursion outer =>
      refine ruled.of_same rooted ?_
      cases outer.parent <;> simp [Run.leaveRecursion, Run.attach]

/-- All contexts of a walk stay ruled by rules that exist, for any number of steps. -/
theorem advances
    {grammar : ParserGrammar}
    (coherent : grammar.network.Coherent)
    (ruled : run.Ruled grammar.network)
    {count : Nat}
    (advances : Advances grammar count run after) :
    after.Ruled grammar.network := by
  induction advances with
  | stay => exact ruled
  | step goesOn _ inductionHypothesis =>
      obtain ⟨-, -, stepped⟩ := goesOn_iff.mp goesOn
      obtain ⟨between, quiet, moves⟩ := Ends.moves_of_stepOnce stepped
      refine inductionHypothesis (Ruled.moves coherent ?_ moves)
      refine ruled.of_same (ruled.rooted.congr ?_ ?_ ?_ ?_) ?_ <;> (rw [quiet.same]; rfl)

end Run.Ruled

end Contexts

variable [TokenSource σ]

/-- The walk leaves the rule that it is in, at a state where the rule ends. -/
structure Run.Leaves
    (run : Run σ)
    (network : Network) :
    Prop where
  notIdle : run.idleSteps < idleLimit network
  notEnded : run.hasEnded network = false
  stopped : (network.state run.state).kind = .ruleStop

/-- A state opens another round of a precedence loop by going on to the target. -/
def opensRound
    (network : Network)
    (state : Network.State)
    (target : Nat) :
    Bool :=
  state.kind = .starLoopEntry && state.precedenceDecision &&
    (network.state target).kind ≠ .loopEnd

/-- The rules whose starts a walk looks up; `none` stands for the rule of a state that has none. -/
inductive LooksUp
    (grammar : ParserGrammar)
    (start : Run σ)
    (first : Nat) :
    Option Nat → Prop where
  /-- The walk begins where its first rule starts. -/
  | begin : LooksUp grammar start first (some first)
  /-- How a rule is left depends on a mark on the start of the rule. -/
  | leave
      {count : Nat}
      {run : Run σ}
      (advances : Advances grammar count (start.begun grammar.network first) run)
      (leaves : run.Leaves grammar.network) :
      LooksUp grammar start first (grammar.network.state run.state).rule
  /-- A context of another round counts as called from the start of its rule. -/
  | round
      {count : Nat}
      {run : Run σ}
      {target : Nat}
      {outermost : Option Nat}
      (advances : Advances grammar count (start.begun grammar.network first) run)
      (isEdge : Edge.epsilon target outermost ∈ (grammar.network.state run.state).edges)
      (opens : opensRound grammar.network (grammar.network.state run.state) target = true) :
      LooksUp grammar start first (grammar.network.state run.state).rule

/--
The contexts of a walk are always ruled by rules that exist. The starts of rules that a walk looks
up are those of rules that exist if and only if it leaves rules only at states that name one; where
all ends of rules do, no walk looks up another one.
-/
theorem looksUp_namesRule_iff
    {name : String}
    {data : RecognizerData}
    {grammar : ParserGrammar}
    (isGrammar : ParserGrammar.ofData name data = .ok grammar)
    (tokens : TokenStream σ)
    (cache : PredictionCache)
    {first : Nat}
    (named : first < grammar.ruleNames.size) :
    (∀ count run,
        Advances grammar count ((Run.start tokens cache).begun grammar.network first) run →
          ∀ node ∈ run.nodes, node.rule < grammar.network.ruleCount) ∧
      ((∀ looked,
          LooksUp grammar (Run.start tokens cache) first looked →
            grammar.network.NamesRule looked) ↔
        ∀ count run,
          Advances grammar count ((Run.start tokens cache).begun grammar.network first) run →
            run.Leaves grammar.network →
              grammar.network.NamesRule (grammar.network.state run.state).rule) := by
  obtain ⟨coherent, sameCount⟩ := coherent_of_ofData isGrammar
  have inRules : first < grammar.network.ruleCount := sameCount ▸ named
  refine ⟨?_, ?_, ?_⟩
  · intro count run advances node member
    have ruled := (Run.Ruled.begun tokens cache inRules).advances coherent advances
    exact ruled.ruled node.rule (Array.mem_map_of_mem member)
  · intro namesAll count run advances leaves
    exact namesAll _ (.leave advances leaves)
  · intro namesAtEnds looked looks
    cases looks with
    | begin => exact ⟨first, rfl, inRules⟩
    | leave advances leaves => exact namesAtEnds _ _ advances leaves
    | round _ _ opens =>
        apply coherent.namesRule_of_precedenceDecision
        simp only [opensRound, Bool.and_eq_true] at opens
        exact opens.1.2

namespace StrayEnd

/--
The data of a parser for the rules `s : e ;` and `e : ;`, where the second rule ends at state 5. That
state says that it belongs to rule 9. The rule has an end of its own, state 4, which nothing leads to.
-/
def data : RecognizerData where
  literalNames := []
  symbolicNames := []
  ruleNames := ["s", "e"]
  channelNames := []
  modeNames := []
  encodedNetwork :=
    [4, 1, 1, 6, 2, 0, 7, 0, 1, 0, 2, 1, 7, 1, 7, 9, 0, 0, 2, 0, 3, 0, 0,
      3,
      0, 2, 1, 0, 0, 0, 2, 1, 3, 3, 1, 0, 3, 5, 1, 0, 0, 0,
      0]

/-- The grammar itself. -/
def grammar : ParserGrammar :=
  (ParserGrammar.ofData "StrayEnd" data).toOption.getD default

/-- A walk about to begin, with no tokens but the end of the input. -/
def start : Run ListedTokens :=
  Run.start (TokenStream.ofSource (ListedTokens.ofList [])) (PredictionCache.initial grammar.network)

/-- The walk once it has entered its first rule. -/
def begun : Run ListedTokens :=
  start.begun grammar.network 0

/-- The walk before it enters the second rule. -/
def outside : Run ListedTokens :=
  { begun.counted with state := 2 }

/-- The walk once it has entered the second rule. -/
def inside : Run ListedTokens :=
  { outside.counted.invoking grammar.network (grammar.network.state outside.state).number 3 1 0 with
    state := 3 }

/-- The walk once it has come to the end of the second rule. -/
def atEnd : Run ListedTokens :=
  { inside.counted with state := 5 }

theorem notIdle
    {run : Run ListedTokens}
    (calm : run.idleSteps ≤ 3) :
    run.idleSteps < idleLimit grammar.network := by
  unfold idleLimit
  omega

theorem kinds :
    (grammar.network.state begun.state).kind = .ruleStart ∧
      (grammar.network.state outside.state).kind = .basic ∧
        (grammar.network.state inside.state).kind = .ruleStart ∧
          (grammar.network.state atEnd.state).kind = .ruleStop := by
  refine ⟨?_, ?_, ?_, ?_⟩ <;> decide +kernel

theorem edges :
    (grammar.network.state begun.state).edges = [.epsilon 2 none] ∧
      (grammar.network.state outside.state).edges = [.call 3 1 0 1] ∧
        (grammar.network.state inside.state).edges = [.epsilon 5 none] := by
  refine ⟨?_, ?_, ?_⟩ <;> decide +kernel

theorem idleSteps :
    begun.idleSteps = 0 ∧ outside.idleSteps = 1 ∧ inside.idleSteps = 2 ∧ atEnd.idleSteps = 3 := by
  refine ⟨?_, ?_, ?_, ?_⟩ <;> decide +kernel

/-- The walk comes to the end of the second rule in three steps. -/
theorem advances_atEnd : Advances grammar 3 begun atEnd := by
  obtain ⟨kindFirst, kindOutside, kindInside, -⟩ := kinds
  obtain ⟨edgeFirst, edgeOutside, edgeInside⟩ := edges
  obtain ⟨idleFirst, idleOutside, idleInside, -⟩ := idleSteps
  have begins : Advances grammar 1 begun outside :=
    Advances.free (notIdle (by omega)) (by simp [kindFirst]) (by simp [kindFirst]) edgeFirst
  have enters : Advances grammar 1 outside inside :=
    Advances.call (notIdle (by omega)) (by simp [kindOutside]) edgeOutside
  have ends : Advances grammar 1 inside atEnd :=
    Advances.free (notIdle (by omega)) (by simp [kindInside]) (by simp [kindInside]) edgeInside
  exact (begins.trans enters).trans ends

/-- The second rule is left there, and the first one has not ended. -/
theorem leaves_atEnd : atEnd.Leaves grammar.network where
  notIdle := notIdle (by rw [idleSteps.2.2.2])
  notEnded := by decide +kernel
  stopped := kinds.2.2.2

/-- The network is read, though its walk looks up where a rule starts that does not exist. -/
theorem looksUp_missing :
    Network.decode data.encodedNetwork = .ok grammar.network ∧
      grammar.network.kind = .parser ∧
        (∃ state ∈ grammar.network.states,
          state.rule = some 9 ∧ ¬ 9 < grammar.network.ruleCount) ∧
          LooksUp grammar start 0 (some 9) := by
  have ofRule : (grammar.network.state atEnd.state).rule = some 9 := by decide +kernel
  have isState : grammar.network.states[5]? = some (grammar.network.state atEnd.state) := by
    decide +kernel
  refine ⟨by decide +kernel, by decide +kernel,
    ⟨_, Array.mem_of_getElem? isState, ofRule, by decide +kernel⟩, ?_⟩
  rw [← ofRule]
  exact .leave advances_atEnd leaves_atEnd

set_option maxRecDepth 20000 in
/-- The walk leaves a rule at a state that names no rule, as it looks up one that does not exist. -/
theorem leaves_stray :
    ParserGrammar.ofData "StrayEnd" data = .ok grammar ∧ 0 < grammar.ruleNames.size ∧
      ¬ ∀ looked, LooksUp grammar start 0 looked → grammar.network.NamesRule looked := by
  have isGrammar : ParserGrammar.ofData "StrayEnd" data = .ok grammar := by cbv
  have named : 0 < grammar.ruleNames.size := by decide +kernel
  have ofRule : (grammar.network.state atEnd.state).rule = some 9 := by decide +kernel
  have ruleCount : grammar.network.ruleCount = 2 := by decide +kernel
  refine ⟨isGrammar, named, ?_⟩
  intro namesAll
  obtain ⟨-, exactly⟩ :=
    looksUp_namesRule_iff isGrammar (TokenStream.ofSource (ListedTokens.ofList []))
      (PredictionCache.initial grammar.network) named
  obtain ⟨rule, names, inRules⟩ := exactly.mp namesAll _ _ advances_atEnd leaves_atEnd
  rw [ofRule] at names
  cases names
  omega

end StrayEnd

end Parser

end GrammarService
