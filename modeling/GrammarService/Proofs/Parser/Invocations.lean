import GrammarService.Proofs.Network.Coherent
import GrammarService.Proofs.Parser.Moves

namespace GrammarService

/-!
# The rule invocations of a walk

A walk keeps its unfinished rule invocations in three places: the links from the current context to
its parents, the left-recursive invocations, and their precedences. What is unfinished can be read
off the walk itself, though: an invocation begins with a call and ends with the stop state of its
rule. The three places agree with that at every step.

A context of a left-recursive rule is linked anew while its rule goes on, when it becomes the first
child of another one. So links lead to unfinished and to finished contexts; the unfinished ones are
those that the current context leads to.
-/

namespace Parser

/-- A rule invocation that has not ended. -/
structure Invocation where
  rule : Nat
  precedence : Int
  /-- The context and the state that the rule was called from, if it was called. -/
  link : Link
  /-- Where the calling rule goes on. -/
  follow : Option Nat
  deriving Repr, DecidableEq

namespace Invocation

/-- The invocation that a walk begins with. -/
def first (rule : Nat) : Invocation where
  rule := rule
  precedence := 0
  link := ⟨none, none⟩
  follow := none

/-- Of some invocations, those of left-recursive rules. -/
def recursive
    (network : Network)
    (invocations : List Invocation) :
    List Invocation :=
  invocations.filter fun invocation => network.isLeftRecursive invocation.rule

end Invocation

variable {σ : Type}

/--
The unfinished invocations, innermost first, once a walk has left its state: a call begins one, and
the end of a rule ends one.
-/
def invocationsBehind
    (network : Network)
    (run : Run σ)
    (invocations : List Invocation) :
    List Invocation :=
  let state := network.state run.state
  if state.kind = .ruleStop then
    invocations.tail
  else
    match state.edges.head? with
    | some (.call _ rule precedence follow) =>
        ⟨rule, precedence, ⟨some run.context, some run.state⟩, some follow⟩ :: invocations
    | _ => invocations

/-- A walk of a rule comes to a state of it with some unfinished invocations, innermost first. -/
inductive Unfinished
    [TokenSource σ]
    (grammar : ParserGrammar)
    (start : Run σ)
    (rule : Nat) :
    Run σ → List Invocation → Prop where
  | begun : Unfinished grammar start rule (start.begun grammar.network rule) [.first rule]
  | step
      {run after : Run σ}
      {invocations : List Invocation}
      (unfinished : Unfinished grammar start rule run invocations)
      (goesOn : outcome (advance grammar) run = (.ok false, after)) :
      Unfinished grammar start rule after (invocationsBehind grammar.network run invocations)

/-- The links of a context, of its parent, and so on up to a context without a parent. -/
inductive Chain (links : Array Link) : (context : Nat) → List Link → Prop where
  | outermost
      {context : Nat}
      {link : Link}
      (linked : links[context]? = some link)
      (noParent : link.parent = none) :
      Chain links context [link]
  | inner
      {context parent : Nat}
      {link : Link}
      {outer : List Link}
      (linked : links[context]? = some link)
      (isParent : link.parent = some parent)
      (earlier : parent < context)
      (rest : Chain links parent outer) :
      Chain links context (link :: outer)

namespace Chain

variable {links later : Array Link} {context : Nat} {link : Link} {chain outer : List Link}

/-- Parents are older contexts, so contexts behind the last one do not matter. -/
theorem congr
    (holds : Chain links context chain)
    (same : ∀ number ≤ context, later[number]? = links[number]?) :
    Chain later context chain := by
  induction holds with
  | outermost linked noParent => exact .outermost ((same _ (Nat.le_refl _)).trans linked) noParent
  | inner linked isParent earlier _ inductionHypothesis =>
      exact .inner ((same _ (Nat.le_refl _)).trans linked) isParent earlier
        (inductionHypothesis fun number atMost => same number (by omega))

/-- The first link is that of the context itself. -/
theorem head (holds : Chain links context (link :: outer)) : links[context]? = some link := by
  cases holds with
  | outermost linked => exact linked
  | inner linked => exact linked

/-- Behind a context with a parent comes the chain of the parent. -/
theorem tail
    {parent : Nat}
    (holds : Chain links context (link :: outer))
    (isParent : link.parent = some parent) :
    Chain links parent outer ∧ parent < context := by
  cases holds with
  | outermost _ noParent =>
      rw [noParent] at isParent
      cases isParent
  | inner _ isOther earlier rest =>
      rw [isOther] at isParent
      cases isParent
      exact ⟨rest, earlier⟩

/-- A newer context that is linked alike leads to the same parents. -/
theorem replace
    {newer : Nat}
    (holds : Chain links context (link :: outer))
    (isNewer : context < newer)
    (linked : later[newer]? = some link)
    (same : ∀ number < context, later[number]? = links[number]?) :
    Chain later newer (link :: outer) := by
  cases holds with
  | outermost _ noParent => exact .outermost linked noParent
  | inner _ isParent earlier rest =>
      refine .inner linked isParent (by omega) (rest.congr fun number atMost => ?_)
      exact same number (by omega)

end Chain

/--
Each invocation but the outermost, of the first rule, is a call from the rule of the one around it.
-/
inductive Called (network : Network) (first : Nat) : List Invocation → Prop where
  | first
      (inRules : first < network.ruleCount) :
      Called network first [.first first]
  | call
      {outer : Invocation}
      {others : List Invocation}
      {caller context target rule follow : Nat}
      {precedence : Int}
      (around : Called network first (outer :: others))
      (inside : (network.state caller).kind ≠ .ruleStop)
      (ofRule : (network.state caller).rule = some outer.rule)
      (present : Edge.call target rule precedence follow ∈ (network.state caller).edges) :
      Called network first
        (⟨rule, precedence, ⟨some context, some caller⟩, some follow⟩ :: outer :: others)

/-- The outermost call returns to the first rule; without a call the walk is in it. -/
theorem Called.outermost
    {network : Network}
    {first : Nat}
    {invocations : List Invocation}
    (shaped : network.CompilerShaped)
    (called : Called network first invocations)
    {state : Nat}
    (ofRule : (network.state state).rule = invocations.head?.map Invocation.rule) :
    (network.state ((invocations.filterMap Invocation.follow).reverse.headD state)).rule =
      some first := by
  induction called generalizing state with
  | first => simpa [Invocation.first] using ofRule
  | call around inside ofCaller present inductionHypothesis =>
      have returns := inductionHypothesis ((shaped.returns inside present).trans ofCaller)
      simpa [List.headD_eq_head?_getD, List.head?_append, ← List.getLast?_eq_head?_reverse,
        Option.getD_or] using returns

/-- What a walk keeps of its unfinished invocations agrees with them. -/
structure Tracked
    (network : Network)
    (first : Nat)
    (run : Run σ)
    (inner : Invocation)
    (outer : List Invocation) :
    Prop where
  called : Called network first (inner :: outer)
  chain : Chain run.links run.context ((inner :: outer).map Invocation.link)
  recursions :
    run.recursions = (Invocation.recursive network (inner :: outer)).map Invocation.link
  precedences :
    run.precedences =
      (Invocation.recursive network (inner :: outer)).map Invocation.precedence ++ [0]
  linked : run.links.size = run.nodes.size
  ofRule : (network.state run.state).rule = some inner.rule
  present : Network.IsPresent network.states run.state

namespace Tracked

variable
  {network : Network}
  {first : Nat}
  {run after : Run σ}
  {inner : Invocation}
  {outer : List Invocation}

/-- The current context has a node. -/
theorem context_lt (tracked : Tracked network first run inner outer) : run.context < run.nodes.size := by
  rw [← tracked.linked]
  exact (Array.getElem?_eq_some_iff.mp tracked.chain.head).1

/-- The current context is linked as the innermost invocation says. -/
theorem link_context (tracked : Tracked network first run inner outer) :
    run.link run.context = inner.link := by
  simp [Run.link, Array.getD_eq_getD_getElem?, tracked.chain.head]

/-- Going on inside a rule leaves the invocations alone. -/
theorem inRule
    (tracked : Tracked network first run inner outer)
    (links : after.links = run.links)
    (nodes : after.nodes.size = run.nodes.size)
    (context : after.context = run.context)
    (recursions : after.recursions = run.recursions)
    (precedences : after.precedences = run.precedences)
    (ofRule : (network.state after.state).rule = (network.state run.state).rule)
    (present : Network.IsPresent network.states after.state) :
    Tracked network first after inner outer where
  called := tracked.called
  chain := by rw [links, context]; exact tracked.chain
  recursions := by rw [recursions]; exact tracked.recursions
  precedences := by rw [precedences]; exact tracked.precedences
  linked := by rw [nodes, links]; exact tracked.linked
  ofRule := by rw [ofRule]; exact tracked.ofRule
  present := present

/-- A rule that is walked as a precedence loop is left-recursive. -/
theorem isLeftRecursive_of_decides
    (coherent : network.Coherent)
    (tracked : Tracked network first run inner outer)
    (decides : (network.state run.state).precedenceDecision = true) :
    network.isLeftRecursive inner.rule = true := by
  have decidesPrecedence := coherent.precedenceDecision decides
  simp only [Network.decidesPrecedence, Bool.and_eq_true, tracked.ofRule, Option.bind_some]
    at decidesPrecedence
  have recursive := decidesPrecedence.1.2
  cases isStart : network.ruleStarts[inner.rule]? with
  | none => simp [isStart] at recursive
  | some start =>
      simpa [isStart, Network.isLeftRecursive, Network.state, Array.getD_eq_getD_getElem?]
        using recursive

/-- The innermost left-recursive invocation is the innermost one, if its rule is so. -/
theorem recursions_eq
    (tracked : Tracked network first run inner outer)
    (recursive : network.isLeftRecursive inner.rule = true) :
    run.recursions =
        inner.link :: (Invocation.recursive network outer).map Invocation.link ∧
      run.precedences =
        inner.precedence ::
          ((Invocation.recursive network outer).map Invocation.precedence ++ [0]) := by
  rw [tracked.recursions, tracked.precedences]
  simp [Invocation.recursive, recursive]

/-- An invocation of another rule is in none of the lists of left-recursive invocations. -/
theorem recursions_eq_of_plain
    (tracked : Tracked network first run inner outer)
    (plain : network.isLeftRecursive inner.rule = false) :
    run.recursions = (Invocation.recursive network outer).map Invocation.link ∧
      run.precedences =
        (Invocation.recursive network outer).map Invocation.precedence ++ [0] := by
  rw [tracked.recursions, tracked.precedences]
  simp [Invocation.recursive, plain]

/-- In another round of a precedence loop a new context takes the place of the current one. -/
theorem round
    (tracked : Tracked network first run inner outer)
    (recursive : network.isLeftRecursive inner.rule = true)
    {outerLink : Link}
    (innermost : run.recursions.head? = some outerLink)
    {state : Network.State}
    {target : Nat}
    (ofRule : (network.state target).rule = (network.state run.state).rule)
    (present : Network.IsPresent network.states target) :
    Tracked network first { run.inRound network outerLink state with state := target } inner outer := by
  have isInner : outerLink = inner.link := by
    rw [(tracked.recursions_eq recursive).1] at innermost
    exact (Option.some.inj innermost).symm
  subst isInner
  have contextKnown := tracked.context_lt
  have linked := tracked.linked
  refine {
    called := tracked.called
    chain := ?_
    recursions := tracked.recursions
    precedences := tracked.precedences
    linked := by simp [Run.inRound, Run.addContext, Run.wrapContext, Run.attach, ParseTree.addChild,
      linked]
    ofRule := ofRule.trans tracked.ofRule
    present := present }
  have chain := tracked.chain
  simp only [Run.inRound, Run.addContext, Run.wrapContext, Run.attach, List.map_cons] at chain ⊢
  refine chain.replace contextKnown ?_ fun number older => ?_
  · rw [Array.getElem?_setIfInBounds_ne (by omega)]
    simp [← linked]
  · rw [Array.getElem?_setIfInBounds_ne (by omega), Array.getElem?_push_lt (by omega),
      Array.getElem?_eq_getElem (by omega)]

/-- A call begins an invocation, in a context of its own. -/
theorem call
    (shaped : network.CompilerShaped)
    (coherent : network.Coherent)
    (tracked : Tracked network first run inner outer)
    {target rule follow : Nat}
    {precedence : Int}
    (inside : (network.state run.state).kind ≠ .ruleStop)
    (present : Edge.call target rule precedence follow ∈ (network.state run.state).edges) :
    Tracked network first
      { run.invoking network (network.state run.state).number target rule precedence with
        state := target }
      ⟨rule, precedence, ⟨some run.context, some run.state⟩, some follow⟩ (inner :: outer) := by
  have isCaller : (network.state run.state).number = run.state :=
    coherent.numbered (Network.getElem?_of_mem_edges present)
  have isTarget : target = network.startOf rule := shaped.callTarget present
  have isRecursive :
      (network.state target).leftRecursiveRule = network.isLeftRecursive rule := by
    rw [isTarget]
    rfl
  have contextKnown := tracked.context_lt
  have linked := tracked.linked
  rw [Run.invoking_eq linked]
  simp only [isRecursive, isCaller]
  refine {
    called := .call tracked.called inside tracked.ofRule present
    chain := ?_
    recursions := ?_
    precedences := ?_
    linked := ?_
    ofRule := isTarget ▸ shaped.startRule (coherent.call present).1
    present := coherent.target present }
  · refine .inner ?_ rfl contextKnown (tracked.chain.congr fun number atMost => ?_)
    · simp [← linked]
    · rw [Array.getElem?_push_lt (by omega), Array.getElem?_eq_getElem (by omega)]
  · cases recursive : network.isLeftRecursive rule with
    | true => simp [Invocation.recursive, recursive, tracked.recursions]
    | false => simp [Invocation.recursive, recursive, tracked.recursions]
  · cases recursive : network.isLeftRecursive rule with
    | true => simp [Invocation.recursive, recursive, tracked.precedences]
    | false => simp [Invocation.recursive, recursive, tracked.precedences]
  · split <;> simp [ParseTree.addChild, linked]

/-- An invocation that was called ends where the one around it goes on. -/
theorem called_of_link
    (shaped : network.CompilerShaped)
    (coherent : network.Coherent)
    (tracked : Tracked network first run inner outer)
    {caller : Nat}
    (linked : inner.link.caller = some caller) :
    ∃ parent follow around others,
      inner.link = ⟨some parent, some caller⟩ ∧ inner.follow = some follow ∧
        outer = around :: others ∧ network.followOf? caller = some follow ∧
          (network.state follow).rule = some around.rule ∧
            Network.IsPresent network.states follow ∧ Called network first (around :: others) := by
  have called := tracked.called
  generalize isStack : inner :: outer = stack at called
  cases called with
  | first inRules =>
      obtain ⟨rfl, rfl⟩ := List.cons.inj isStack
      cases linked
  | call around inside ofRule present =>
      obtain ⟨rfl, rfl⟩ := List.cons.inj isStack
      cases linked
      exact ⟨_, _, _, _, rfl, rfl, rfl, shaped.followOf?_eq present,
        (shaped.returns inside present).trans ofRule, (coherent.call present).2.2, around⟩

/-- The end of a rule ends the innermost invocation, and the one around it goes on. -/
theorem leave
    (shaped : network.CompilerShaped)
    (coherent : network.Coherent)
    (tracked : Tracked network first run inner outer)
    {parent caller follow : Nat}
    (plain : (network.state run.state).rule.any network.isLeftRecursive = false)
    (linked : run.link run.context = ⟨some parent, some caller⟩)
    (goesOn : network.followOf? caller = some follow) :
    ∃ around others,
      outer = around :: others ∧
        Tracked network first { run with context := parent, state := follow } around others := by
  rw [tracked.link_context] at linked
  obtain ⟨other, behind, around, others, isLink, _, rfl, isFollow, ofRule, present, called⟩ :=
    tracked.called_of_link shaped coherent (congrArg Link.caller linked)
  rw [linked] at isLink
  cases isLink
  rw [goesOn] at isFollow
  cases isFollow
  have isPlain : network.isLeftRecursive inner.rule = false := by
    simpa [tracked.ofRule] using plain
  obtain ⟨recursions, precedences⟩ := tracked.recursions_eq_of_plain isPlain
  exact ⟨around, others, rfl, {
    called := called
    chain := (tracked.chain.tail (congrArg Link.parent linked)).1
    recursions := recursions
    precedences := precedences
    linked := tracked.linked
    ofRule := ofRule
    present := present }⟩

/-- The end of a left-recursive rule ends the innermost invocation as well. -/
theorem leaveRecursion
    (shaped : network.CompilerShaped)
    (coherent : network.Coherent)
    (tracked : Tracked network first run inner outer)
    {outerLink : Link}
    {recursions : List Link}
    {caller follow : Nat}
    (recursive : (network.state run.state).rule.any network.isLeftRecursive = true)
    (innermost : run.recursions = outerLink :: recursions)
    (linked : outerLink.caller = some caller)
    (goesOn : network.followOf? caller = some follow) :
    ∃ around others,
      outer = around :: others ∧
        Tracked network first
          { { run with recursions := recursions }.leaveRecursion outerLink.parent with
            state := follow }
          around others := by
  have isRecursive : network.isLeftRecursive inner.rule = true := by
    simpa [tracked.ofRule] using recursive
  obtain ⟨isRecursions, precedences⟩ := tracked.recursions_eq isRecursive
  rw [isRecursions] at innermost
  obtain ⟨rfl, rfl⟩ := List.cons.inj innermost
  obtain ⟨parent, behind, around, others, isLink, _, rfl, isFollow, ofRule, present, called⟩ :=
    tracked.called_of_link shaped coherent linked
  rw [goesOn] at isFollow
  cases isFollow
  have isParent : inner.link.parent = some parent := congrArg Link.parent isLink
  -- The context is linked to the same parent as before.
  have sameLinks :
      run.links.modify run.context (fun link => { link with parent := some parent }) =
        run.links := by
    apply Array.ext_getElem?
    intro place
    rw [Array.getElem?_modify]
    split
    · rename_i isContext
      rw [← isContext, tracked.chain.head, isLink]
      rfl
    · rfl
  refine ⟨around, others, rfl, ?_⟩
  simp only [Run.leaveRecursion, isParent, Run.attach, sameLinks]
  exact {
    called := called
    chain := (tracked.chain.tail isParent).1
    recursions := rfl
    precedences := by simp only [precedences, List.tail_cons]
    linked := by simpa [ParseTree.addChild] using tracked.linked
    ofRule := ofRule
    present := present }

/-- Inside a rule an edge that is no call leaves the unfinished invocations alone. -/
theorem invocationsBehind_of_not_call
    (shaped : network.CompilerShaped)
    {edge : Edge}
    (inside : (network.state run.state).kind ≠ .ruleStop)
    (present : edge ∈ (network.state run.state).edges)
    (notCall : edge.isCall = false)
    (invocations : List Invocation) :
    invocationsBehind network run invocations = invocations := by
  simp only [invocationsBehind, inside, if_false]
  split
  · rename_i target rule precedence follow isFirst
    have isThere := List.mem_of_mem_head? isFirst
    rw [shaped.alone isThere rfl, List.mem_singleton] at present
    subst present
    cases notCall
  · rfl

variable [TokenSource σ]

/-- Every move leaves behind the invocations that it does not begin or end. -/
theorem moves
    (shaped : network.CompilerShaped)
    (coherent : network.Coherent)
    (tracked : Tracked network first run inner outer)
    (moves : Moves network run after) :
    ∃ next others,
      invocationsBehind network run (inner :: outer) = next :: others ∧
        Tracked network first after next others := by
  cases moves with
  | @free edge inside present isFree =>
      refine ⟨inner, outer, ?_, tracked.inRule rfl rfl rfl rfl rfl ?_ (coherent.target present)⟩
      · exact invocationsBehind_of_not_call shaped inside present (Edge.not_isCall_of_isFree isFree) _
      · exact Edge.next_of_isFree isFree ▸ shaped.within inside present
  | @round edge outerLink inside present isFree atEntry decides goesOn innermost =>
      refine ⟨inner, outer, ?_, tracked.round (tracked.isLeftRecursive_of_decides coherent decides)
        innermost ?_ (coherent.target present)⟩
      · exact invocationsBehind_of_not_call shaped inside present (Edge.not_isCall_of_isFree isFree) _
      · exact Edge.next_of_isFree isFree ▸ shaped.within inside present
  | @token edge inside present admitted =>
      refine ⟨inner, outer, ?_,
        tracked.inRule rfl ?_ rfl rfl rfl ?_ (coherent.target present)⟩
      · refine invocationsBehind_of_not_call shaped inside present ?_ _
        cases edge <;> first | rfl | cases admitted
      · simp [ParseTree.addChild]
      · exact Edge.next_of_admits admitted ▸ shaped.within inside present
  | call inside present =>
      refine ⟨_, inner :: outer, ?_, tracked.call shaped coherent inside present⟩
      simp [invocationsBehind, inside, shaped.alone present rfl]
  | leave stopped plain linked goesOn =>
      obtain ⟨around, others, rfl, behind⟩ :=
        tracked.leave shaped coherent plain linked goesOn
      exact ⟨around, others, by simp [invocationsBehind, stopped], behind⟩
  | leaveRecursion stopped recursive innermost linked goesOn =>
      obtain ⟨around, others, rfl, behind⟩ :=
        tracked.leaveRecursion shaped coherent recursive innermost linked goesOn
      exact ⟨around, others, by simp [invocationsBehind, stopped], behind⟩

/-- Looking at tokens and counting steps leave the invocations alone. -/
theorem quiet
    (tracked : Tracked network first run inner outer)
    (quiet : Quiet run after) :
    Tracked network first after inner outer := by
  have present := tracked.present
  refine tracked.inRule ?_ ?_ ?_ ?_ ?_ ?_ ?_ <;> rw [quiet.same]
  exact present

omit [TokenSource σ] in
theorem counted
    (tracked : Tracked network first run inner outer) :
    Tracked network first run.counted inner outer :=
  tracked.inRule rfl rfl rfl rfl rfl rfl tracked.present

/-- A round of a walk leaves behind the invocations that it does not begin or end. -/
theorem advance
    {grammar : ParserGrammar}
    (shaped : grammar.network.CompilerShaped)
    (coherent : grammar.network.Coherent)
    (tracked : Tracked grammar.network first run inner outer)
    (goesOn : outcome (Parser.advance grammar) run = (.ok false, after)) :
    ∃ next others,
      invocationsBehind grammar.network run (inner :: outer) = next :: others ∧
        Tracked grammar.network first after next others := by
  obtain ⟨-, -, stepped⟩ := goesOn_iff.mp goesOn
  obtain ⟨between, quiet, moves⟩ := Ends.moves_of_stepOnce stepped
  have same :
      invocationsBehind grammar.network between (inner :: outer) =
        invocationsBehind grammar.network run (inner :: outer) := by
    have sameState : between.state = run.state := by
      rw [quiet.same]
      rfl
    have sameContext : between.context = run.context := by
      rw [quiet.same]
      rfl
    simp only [invocationsBehind, sameState, sameContext]
  rw [← same]
  exact (tracked.counted.quiet quiet).moves shaped coherent moves

/-- A walk begins with the invocation of its first rule. -/
theorem begun
    (shaped : network.CompilerShaped)
    (coherent : network.Coherent)
    (tokens : TokenStream σ)
    (cache : PredictionCache)
    {rule : Nat}
    (inRules : rule < network.ruleCount) :
    Tracked network rule ((Run.start tokens cache).begun network rule) (.first rule) [] := by
  have isStart : Network.IsPresent network.states (network.startOf rule) := by
    refine Network.isPresent_of_kind_ne ?_
    rw [Network.startOf, coherent.startKind inRules]
    decide
  cases recursive : network.isLeftRecursive rule with
  | true =>
      simp only [Run.begun, recursive, if_true]
      exact {
        called := .first inRules
        chain := .outermost rfl rfl
        recursions := by simp [Invocation.recursive, recursive, Invocation.first,
          Run.enterRecursion, Run.addContext, Run.start, Run.link]
        precedences := by simp [Invocation.recursive, recursive, Invocation.first,
          Run.enterRecursion, Run.addContext, Run.start]
        linked := rfl
        ofRule := shaped.startRule inRules
        present := isStart }
  | false =>
      simp only [Run.begun, recursive, Bool.false_eq_true, if_false]
      exact {
        called := .first inRules
        chain := .outermost rfl rfl
        recursions := by simp [Invocation.recursive, recursive, Invocation.first,
          Run.enterRule, Run.addContext, Run.start, Run.link]
        precedences := by simp [Invocation.recursive, recursive, Invocation.first,
          Run.enterRule, Run.addContext, Run.start, Run.link]
        linked := rfl
        ofRule := shaped.startRule inRules
        present := isStart }

omit [TokenSource σ] in
/-- The current invocations return to where the calling rules go on, outermost first. -/
theorem returnStates_eq
    (shaped : network.CompilerShaped)
    (tracked : Tracked network first run inner outer) :
    run.returnStates network = ((inner :: outer).filterMap Invocation.follow).reverse := by
  have from_ :
      ∀ (invocations : List Invocation),
        Called network first invocations →
          ∀ (count context : Nat) (found : List Nat),
            context < count →
              Chain run.links context (invocations.map Invocation.link) →
                run.returnStatesFrom network count context found =
                  (invocations.filterMap Invocation.follow).reverse ++ found := by
    intro invocations called
    induction called with
    | first =>
        intro count context found enough chain
        obtain ⟨count, rfl⟩ := Nat.exists_eq_succ_of_ne_zero (Nat.ne_zero_of_lt enough)
        simp [Run.returnStatesFrom, chain.head, Invocation.first]
    | call around inside ofRule present inductionHypothesis =>
        intro count context found enough chain
        obtain ⟨count, rfl⟩ := Nat.exists_eq_succ_of_ne_zero (Nat.ne_zero_of_lt enough)
        obtain ⟨rest, earlier⟩ := chain.tail rfl
        simp only [Run.returnStatesFrom, chain.head, shaped.followOf?_eq present]
        rw [inductionHypothesis count _ _ (by omega) rest]
        simp
  have known := tracked.context_lt
  have linked := tracked.linked
  rw [Run.returnStates, from_ _ tracked.called _ _ _ (by omega) tracked.chain, List.append_nil]

omit [TokenSource σ] in
/-- The current invocations return to the first rule in the end. -/
theorem outermost
    (shaped : network.CompilerShaped)
    (tracked : Tracked network first run inner outer) :
    (network.state ((run.returnStates network).headD run.state)).rule = some first := by
  rw [tracked.returnStates_eq shaped]
  exact tracked.called.outermost shaped tracked.ofRule

end Tracked

/-- What a walk keeps of its unfinished invocations agrees with them at every step. -/
theorem Unfinished.tracked
    [TokenSource σ]
    {grammar : ParserGrammar}
    (shaped : grammar.network.CompilerShaped)
    (coherent : grammar.network.Coherent)
    {tokens : TokenStream σ}
    {cache : PredictionCache}
    {rule : Nat}
    (inRules : rule < grammar.network.ruleCount)
    {run : Run σ}
    {invocations : List Invocation}
    (unfinished : Unfinished grammar (Run.start tokens cache) rule run invocations) :
    ∃ inner outer,
      invocations = inner :: outer ∧ Tracked grammar.network rule run inner outer := by
  induction unfinished with
  | begun => exact ⟨_, [], rfl, .begun shaped coherent tokens cache inRules⟩
  | step _ goesOn inductionHypothesis =>
      obtain ⟨inner, outer, rfl, tracked⟩ := inductionHypothesis
      exact tracked.advance shaped coherent goesOn

end Parser

end GrammarService
