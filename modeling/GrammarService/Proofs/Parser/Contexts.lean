import GrammarService.Proofs.Network.Coherent
import GrammarService.Proofs.Parser.Derivations
import GrammarService.Proofs.Parser.Moves

namespace GrammarService

/-!
# The contexts of a walk

While a walk builds a tree, the current context has the parts of a rule up to the current state.
The contexts below it wait for the rule that they called. A context of a left-recursive rule joins
the context that waits for it only at its end; until then further contexts may be put around it.

Every move keeps this.
-/

namespace Parser

open GrammarService.Derivation

variable {σ : Type} [TokenSource σ]

/-- The children by which a called rule shows in the context that waits for it. -/
def openedChildren
    (network : Network)
    (rule context : Nat) :
    List ParseTree.Child :=
  if network.isLeftRecursive rule then [] else [.rule context]

/-- What a called rule adds to the left-recursive invocations. -/
def openedRecursions
    (network : Network)
    (rule : Nat)
    (link : Link)
    (outer : List Link) :
    List Link :=
  if network.isLeftRecursive rule then link :: outer else outer

/--
The contexts below `context`, which is of rule `rule`, wait for it. `numbers` are the nodes they
are made of, `leaves` their tokens, and `recursions` the links of left-recursive invocations.
-/
inductive Waiting
    (network : Network)
    (firstRule : Nat)
    (nodes : Array ParseTree.RuleNode)
    (links : Array Link) :
    (context rule : Nat) → (numbers : List Nat) → (leaves : List Token) →
      (recursions : List Link) → Prop where
  | outermost
      {context : Nat}
      (linked : links[context]? = some ⟨none, none⟩) :
      Waiting network firstRule nodes links context firstRule [] []
        (openedRecursions network firstRule ⟨none, none⟩ [])
  | called
      {context rule parent parentRule caller target follow : Nat}
      {precedence : Int}
      {parts : List Derivation}
      {numbers : List Nat}
      {leaves : List Token}
      {recursions : List Link}
      (outer : Waiting network firstRule nodes links parent parentRule numbers leaves recursions)
      (linked : links[context]? = some ⟨some parent, some caller⟩)
      (node :
        nodes[parent]? =
          some ⟨parentRule, (parts.map child ++ openedChildren network rule context).toArray⟩)
      (spelled : Spells network parentRule caller parts)
      (complete : AreComplete network parts)
      (stored : AreStored nodes parts)
      (inside : (network.state caller).kind ≠ .ruleStop)
      (calls : Edge.call target rule precedence follow ∈ (network.state caller).edges) :
      Waiting network firstRule nodes links context rule
        (numbers ++ parent :: numbersOfAll parts) (leaves ++ leavesOfAll parts)
        (openedRecursions network rule ⟨some parent, some caller⟩ recursions)

namespace Waiting

variable
  {network : Network}
  {firstRule context rule : Nat}
  {nodes : Array ParseTree.RuleNode}
  {links : Array Link}
  {numbers : List Nat}
  {leaves : List Token}
  {recursions : List Link}

/-- Changes elsewhere do not matter to the contexts that wait. -/
theorem congr
    (waits : Waiting network firstRule nodes links context rule numbers leaves recursions)
    {nodes' : Array ParseTree.RuleNode}
    {links' : Array Link}
    (sameNodes : ∀ number ∈ numbers, nodes'[number]? = nodes[number]?)
    (sameLinks : ∀ number ∈ numbers, links'[number]? = links[number]?)
    (sameLink : links'[context]? = links[context]?) :
    Waiting network firstRule nodes' links' context rule numbers leaves recursions := by
  induction waits with
  | outermost linked => exact .outermost (sameLink.trans linked)
  | called _ linked node spelled complete stored inside calls inductionHypothesis =>
      refine .called (inductionHypothesis ?_ ?_ ?_) (sameLink.trans linked) ?_ spelled complete
        (AreStored.congr _ ?_ stored) inside calls
      · exact fun number member => sameNodes number (by simp [member])
      · exact fun number member => sameLinks number (by simp [member])
      · exact sameLinks _ (by simp)
      · rw [sameNodes _ (by simp), node]
      · exact fun number member => sameNodes number (by simp [member])

/-- A context of a left-recursive rule can be replaced by another one that is linked alike. -/
theorem replace
    (waits : Waiting network firstRule nodes links context rule numbers leaves recursions)
    (leftRecursive : network.isLeftRecursive rule = true)
    {other : Nat}
    (sameLink : links[other]? = links[context]?) :
    Waiting network firstRule nodes links other rule numbers leaves recursions := by
  cases waits with
  | outermost linked => exact .outermost (sameLink.trans linked)
  | called outer linked node spelled complete stored inside calls =>
      refine .called outer (sameLink.trans linked) ?_ spelled complete stored inside calls
      simpa [openedChildren, leftRecursive] using node

/-- Contexts wait for rules of the network. -/
theorem inRules
    (coherent : network.Coherent)
    (firstInRules : firstRule < network.ruleCount)
    (waits : Waiting network firstRule nodes links context rule numbers leaves recursions) :
    rule < network.ruleCount := by
  cases waits with
  | outermost => exact firstInRules
  | called _ _ _ _ _ _ _ calls => exact (coherent.call calls).1

/-- The innermost left-recursive invocation is that of the context, if its rule is so. -/
theorem head?_recursions
    (waits : Waiting network firstRule nodes links context rule numbers leaves recursions)
    (leftRecursive : network.isLeftRecursive rule = true) :
    recursions.head? = links[context]? := by
  cases waits with
  | outermost linked => simp [openedRecursions, leftRecursive, linked]
  | called outer linked => simp [openedRecursions, leftRecursive, linked]

end Waiting

/-- A walk builds a tree: the parts of the current context spell its rule up to the state. -/
structure Builds
    (network : Network)
    (firstRule : Nat)
    (run : Run σ)
    (rule : Nat)
    (parts : List Derivation)
    (numbers : List Nat)
    (leaves : List Token) :
    Prop where
  node : run.nodes[run.context]? = some (nodeOf rule parts)
  spelled : Spells network rule run.state parts
  complete : AreComplete network parts
  stored : AreStored run.nodes parts
  waits :
    Waiting network firstRule run.nodes run.links run.context rule numbers leaves run.recursions
  distinct : (numbers ++ run.context :: numbersOfAll parts).Nodup
  known : ∀ number ∈ numbers ++ run.context :: numbersOfAll parts, number < run.nodes.size
  linked : run.links.size = run.nodes.size
  inRules : rule < network.ruleCount

/-- A walk builds a tree whose tokens so far are the given ones. -/
def HasBuilt
    (network : Network)
    (firstRule : Nat)
    (run : Run σ)
    (read : List Token) :
    Prop :=
  ∃ rule parts numbers leaves,
    Builds network firstRule run rule parts numbers leaves ∧
      leaves ++ leavesOfAll parts = read

/-- Giving a node a child leaves the other nodes alone. -/
theorem getElem?_addChild_of_ne
    {nodes : Array ParseTree.RuleNode}
    {parent number : Nat}
    (other : parent ≠ number)
    (added : ParseTree.Child) :
    (ParseTree.addChild nodes parent added)[number]? = nodes[number]? := by
  simp [ParseTree.addChild, Array.getElem?_modify, other]

/-- A node that is given a child has it behind the others. -/
theorem getElem?_addChild_self
    {nodes : Array ParseTree.RuleNode}
    {parent : Nat}
    {node : ParseTree.RuleNode}
    (present : nodes[parent]? = some node)
    (added : ParseTree.Child) :
    (ParseTree.addChild nodes parent added)[parent]? =
      some { node with children := node.children.push added } := by
  simp [ParseTree.addChild, Array.getElem?_modify, present]

@[simp] theorem size_addChild
    (nodes : Array ParseTree.RuleNode)
    (parent : Nat)
    (added : ParseTree.Child) :
    (ParseTree.addChild nodes parent added).size = nodes.size := by
  simp [ParseTree.addChild]

namespace Builds

variable
  {network : Network}
  {firstRule : Nat}
  {run : Run σ}
  {rule : Nat}
  {parts : List Derivation}
  {numbers : List Nat}
  {leaves : List Token}

omit [TokenSource σ] in
/-- The current context is neither one that waits nor one of its own parts. -/
theorem context_fresh
    (builds : Builds network firstRule run rule parts numbers leaves) :
    run.context ∉ numbers ∧ run.context ∉ numbersOfAll parts := by
  have distinct := builds.distinct
  rw [List.nodup_append] at distinct
  exact ⟨fun member => distinct.2.2 _ member _ List.mem_cons_self rfl,
    (List.nodup_cons.mp distinct.2.1).1⟩

omit [TokenSource σ] in
/-- What is looked at and remembered does not matter to the tree. -/
theorem congr
    (builds : Builds network firstRule run rule parts numbers leaves)
    {after : Run σ}
    (nodes : after.nodes = run.nodes)
    (links : after.links = run.links)
    (context : after.context = run.context)
    (state : after.state = run.state)
    (recursions : after.recursions = run.recursions) :
    Builds network firstRule after rule parts numbers leaves where
  node := by rw [nodes, context, builds.node]
  spelled := by rw [state]; exact builds.spelled
  complete := builds.complete
  stored := by rw [nodes]; exact builds.stored
  waits := by rw [nodes, links, context, recursions]; exact builds.waits
  distinct := by rw [context]; exact builds.distinct
  known := by rw [nodes, context]; exact builds.known
  linked := by rw [nodes, links]; exact builds.linked
  inRules := builds.inRules

omit [TokenSource σ] in
/-- Crossing a free edge goes on with the same parts. -/
theorem free
    (builds : Builds network firstRule run rule parts numbers leaves)
    {edge : Edge}
    (inside : (network.state run.state).kind ≠ .ruleStop)
    (present : edge ∈ (network.state run.state).edges)
    (isFree : edge.isFree = true) :
    Builds network firstRule { run with state := edge.target } rule parts numbers leaves :=
  { builds with spelled := .free builds.spelled inside present isFree }

/-- A consumed token is a further part. -/
theorem token
    (builds : Builds network firstRule run rule parts numbers leaves)
    {edge : Edge}
    (inside : (network.state run.state).kind ≠ .ruleStop)
    (present : edge ∈ (network.state run.state).edges)
    (admitted : edge.admits run.current.type = true) :
    Builds network firstRule { run.consumed with state := edge.target } rule
      (parts ++ [.leaf run.current]) numbers leaves := by
  obtain ⟨notWaiting, notPart⟩ := builds.context_fresh
  have elsewhere :
      ∀ number, number ≠ run.context →
        run.consumed.nodes[number]? = run.nodes[number]? := by
    intro number other
    exact getElem?_addChild_of_ne (Ne.symm other) _
  refine {
    node := ?_
    spelled := .token builds.spelled inside present admitted
    complete := by simp [builds.complete, AreComplete, Derivation.IsComplete]
    stored := ?_
    waits := ?_
    distinct := by simpa [numbersOfAll, Derivation.numbers] using builds.distinct
    known := ?_
    linked := ?_
    inRules := builds.inRules }
  · rw [nodeOf_append]
    exact getElem?_addChild_self builds.node _
  · rw [areStored_append]
    refine ⟨AreStored.congr parts ?_ builds.stored, by simp [AreStored, IsStored]⟩
    exact fun number member =>
      elsewhere number fun same => notPart (same ▸ member)
  · refine builds.waits.congr ?_ (fun _ _ => rfl) rfl
    exact fun number member =>
      elsewhere number fun same => notWaiting (same ▸ member)
  · intro number member
    have known := builds.known number
      (by simpa [numbersOfAll, Derivation.numbers] using member)
    simpa using known
  · simpa using builds.linked

omit [TokenSource σ] in
/-- A called rule has a context of its own, which the caller's context waits for. -/
theorem call
    (shaped : network.CompilerShaped)
    (coherent : network.Coherent)
    (builds : Builds network firstRule run rule parts numbers leaves)
    {target called follow : Nat}
    {precedence : Int}
    (inside : (network.state run.state).kind ≠ .ruleStop)
    (present : Edge.call target called precedence follow ∈ (network.state run.state).edges) :
    Builds network firstRule
      { run.invoking network (network.state run.state).number target called precedence
        with state := target }
      called [] (numbers ++ run.context :: numbersOfAll parts)
      (leaves ++ leavesOfAll parts) := by
  obtain ⟨notWaiting, notPart⟩ := builds.context_fresh
  have isCaller : (network.state run.state).number = run.state :=
    coherent.numbered (Network.getElem?_of_mem_edges present)
  have isTarget : target = network.startOf called := shaped.callTarget present
  have isRecursive :
      (network.state target).leftRecursiveRule = network.isLeftRecursive called := by
    rw [isTarget]
    rfl
  have contextKnown : run.context < run.nodes.size :=
    builds.known run.context (by simp)
  rw [Run.invoking_eq builds.linked]
  simp only [isRecursive, isCaller]
  -- The context of the caller gets the new one as a child at once, unless its rule loops.
  have nodes :
      ∃ nodes,
        nodes =
            (if network.isLeftRecursive called = true then
              run.nodes.push ⟨called, #[]⟩
            else
              ParseTree.addChild (run.nodes.push ⟨called, #[]⟩) run.context
                (.rule run.nodes.size)) ∧
          nodes.size = run.nodes.size + 1 ∧
          nodes[run.nodes.size]? = some (nodeOf called []) ∧
          nodes[run.context]? =
            some ⟨rule,
              (parts.map child ++ openedChildren network called run.nodes.size).toArray⟩ ∧
          ∀ number < run.nodes.size, number ≠ run.context →
            nodes[number]? = run.nodes[number]? := by
    refine ⟨_, rfl, ?_⟩
    have pushed :
        ∀ number < run.nodes.size,
          (run.nodes.push ⟨called, #[]⟩)[number]? = run.nodes[number]? := by
      intro number inBounds
      rw [Array.getElem?_push_lt inBounds, Array.getElem?_eq_getElem inBounds]
    split
    · rename_i recursive
      refine ⟨by simp, by simp [nodeOf], ?_, fun number inBounds _ => pushed number inBounds⟩
      rw [pushed _ contextKnown, builds.node]
      simp [openedChildren, recursive, nodeOf]
    · rename_i plain
      refine ⟨by simp, ?_, ?_, ?_⟩
      · rw [getElem?_addChild_of_ne (by omega)]
        simp [nodeOf]
      · rw [getElem?_addChild_self ((pushed _ contextKnown).trans builds.node)]
        simp [openedChildren, plain, nodeOf]
      · intro number inBounds other
        rw [getElem?_addChild_of_ne (Ne.symm other), pushed number inBounds]
  obtain ⟨nodes, isNodes, size, new, own, elsewhere⟩ := nodes
  rw [← isNodes]
  have waits :
      Waiting network firstRule nodes (run.links.push ⟨some run.context, some run.state⟩)
        run.context rule numbers leaves run.recursions := by
    have sameLink :
        ∀ number < run.nodes.size,
          (run.links.push ⟨some run.context, some run.state⟩)[number]? =
            run.links[number]? := by
      intro number inBounds
      rw [← builds.linked] at inBounds
      rw [Array.getElem?_push_lt inBounds, Array.getElem?_eq_getElem inBounds]
    refine builds.waits.congr ?_ ?_ (sameLink _ contextKnown)
    · exact fun number member =>
        elsewhere number (builds.known number (by simp [member]))
          fun same => notWaiting (same ▸ member)
    · exact fun number member => sameLink number (builds.known number (by simp [member]))
  refine {
    node := new
    spelled := isTarget ▸ .start
    complete := by simp [AreComplete]
    stored := by simp [AreStored]
    waits := ?_
    distinct := ?_
    known := ?_
    linked := by simp [size, builds.linked]
    inRules := (coherent.call present).1 }
  · refine .called waits ?_ own builds.spelled builds.complete ?_ inside present
    · simp [← builds.linked]
    · refine AreStored.congr parts ?_ builds.stored
      exact fun number member =>
        elsewhere number (builds.known number (by simp [member]))
          fun same => notPart (same ▸ member)
  · rw [List.nodup_append]
    refine ⟨builds.distinct, by simp [numbersOfAll], ?_⟩
    intro number member other isNew
    have inBounds := builds.known number member
    have isSize : other = run.nodes.size := by
      simpa [numbersOfAll] using isNew
    omega
  · intro number member
    rw [size]
    rcases List.mem_append.mp member with isOld | isNew
    · exact Nat.lt_succ_of_lt (builds.known number isOld)
    · have isSize : number = run.nodes.size := by
        simpa [numbersOfAll] using isNew
      omega

omit [TokenSource σ] in
/-- A rule that is walked as a precedence loop is left-recursive. -/
theorem isLeftRecursive_of_decides
    (shaped : network.CompilerShaped)
    (coherent : network.Coherent)
    (builds : Builds network firstRule run rule parts numbers leaves)
    (decides : (network.state run.state).precedenceDecision = true) :
    network.isLeftRecursive rule = true := by
  have decidesPrecedence := coherent.precedenceDecision decides
  have inRule := builds.spelled.rule_state shaped builds.inRules
  have inBounds : rule < network.ruleStarts.size := builds.inRules
  simp only [Network.decidesPrecedence, Bool.and_eq_true, inRule, Option.bind_some,
    Array.getElem?_eq_getElem inBounds] at decidesPrecedence
  have recursive := decidesPrecedence.1.2
  simpa [Network.isLeftRecursive, Network.state, Array.getD_eq_getD_getElem?,
    Array.getElem?_eq_getElem inBounds] using recursive

omit [TokenSource σ] in
/-- In another round the context so far becomes the first part of a new one. -/
theorem round
    (shaped : network.CompilerShaped)
    (coherent : network.Coherent)
    (builds : Builds network firstRule run rule parts numbers leaves)
    {edge : Edge}
    {outer : Link}
    (inside : (network.state run.state).kind ≠ .ruleStop)
    (present : edge ∈ (network.state run.state).edges)
    (isFree : edge.isFree = true)
    (atEntry : (network.state run.state).kind = .starLoopEntry)
    (decides : (network.state run.state).precedenceDecision = true)
    (goesOn : (network.state edge.target).kind ≠ .loopEnd)
    (innermost : run.recursions.head? = some outer) :
    Builds network firstRule
      { run.inRound network outer (network.state run.state) with state := edge.target }
      rule [.node run.context rule parts] numbers leaves := by
  obtain ⟨notWaiting, notPart⟩ := builds.context_fresh
  have recursive := builds.isLeftRecursive_of_decides shaped coherent decides
  have contextKnown : run.context < run.nodes.size :=
    builds.known run.context (by simp)
  have isRule : run.ruleOf run.context = rule := by
    simp [Run.ruleOf, Array.getD_eq_getD_getElem?, builds.node, nodeOf]
  have isOuter : run.links[run.context]? = some outer :=
    (builds.waits.head?_recursions recursive).symm.trans innermost
  have spelled :
      Spells network rule run.state [.node run.context rule parts] :=
    .round builds.spelled recursive atEntry decides
  have pushed :
      ∀ number < run.nodes.size,
        (ParseTree.addChild (run.nodes.push ⟨rule, #[]⟩) run.nodes.size
          (.rule run.context))[number]? = run.nodes[number]? := by
    intro number inBounds
    rw [getElem?_addChild_of_ne (by omega), Array.getElem?_push_lt inBounds,
      Array.getElem?_eq_getElem inBounds]
  have links :
      ∀ number, number ≠ run.context →
        number < run.nodes.size →
          ((run.links.push outer).setIfInBounds run.context
            ⟨some run.nodes.size,
              some (network.ruleStarts.getD ((network.state run.state).rule.getD 0) 0)⟩)[
                number]? = run.links[number]? := by
    intro number other inBounds
    rw [← builds.linked] at inBounds
    rw [Array.getElem?_setIfInBounds_ne (Ne.symm other), Array.getElem?_push_lt inBounds,
      Array.getElem?_eq_getElem inBounds]
  have newLink :
      ((run.links.push outer).setIfInBounds run.context
        ⟨some run.nodes.size,
          some (network.ruleStarts.getD ((network.state run.state).rule.getD 0) 0)⟩)[
            run.nodes.size]? = some outer := by
    rw [Array.getElem?_setIfInBounds_ne (by omega)]
    simp [← builds.linked]
  simp only [Run.inRound, Run.addContext, Run.wrapContext, Run.attach, isRule]
  refine {
    node := ?_
    spelled := .free spelled inside present isFree
    complete := ?_
    stored := ?_
    waits := ?_
    distinct := ?_
    known := ?_
    linked := by simp [builds.linked]
    inRules := builds.inRules }
  · rw [getElem?_addChild_self (Array.getElem?_push_size)]
    rfl
  · exact ⟨⟨builds.spelled.finish shaped coherent builds.inRules atEntry decides present goesOn,
      builds.complete⟩, trivial⟩
  · refine ⟨⟨(pushed _ contextKnown).trans builds.node, AreStored.congr parts ?_ builds.stored⟩,
      trivial⟩
    exact fun number member => pushed number (builds.known number (by simp [member]))
  · -- The new context is linked as the old one was, so the others now wait for it.
    have replaced :
        Waiting network firstRule run.nodes (run.links.push outer) run.nodes.size rule numbers
          leaves run.recursions := by
      have kept :
          ∀ number < run.nodes.size,
            (run.links.push outer)[number]? = run.links[number]? := by
        intro number inBounds
        rw [← builds.linked] at inBounds
        rw [Array.getElem?_push_lt inBounds, Array.getElem?_eq_getElem inBounds]
      refine (builds.waits.congr (fun _ _ => rfl) ?_ (kept _ contextKnown)).replace recursive ?_
      · exact fun number member => kept number (builds.known number (by simp [member]))
      · rw [kept _ contextKnown, isOuter]
        simp [← builds.linked]
    refine replaced.congr ?_ ?_ ?_
    · exact fun number member => pushed number (builds.known number (by simp [member]))
    · intro number member
      rw [Array.getElem?_setIfInBounds_ne]
      exact fun same => notWaiting (same ▸ member)
    · rw [Array.getElem?_setIfInBounds_ne (by omega)]
  · have distinct := builds.distinct
    simp only [numbersOfAll, Derivation.numbers, List.append_nil]
    rw [List.nodup_append] at distinct ⊢
    refine ⟨distinct.1, List.nodup_cons.mpr ⟨?_, distinct.2.1⟩, ?_⟩
    · intro member
      have inBounds := builds.known run.nodes.size (List.mem_append_right _ member)
      omega
    · intro number member other isNew
      rcases List.mem_cons.mp isNew with rfl | isOld
      · have inBounds := builds.known number (by simp [member])
        omega
      · exact distinct.2.2 number member other isOld
  · intro number member
    simp only [size_addChild, Array.size_push]
    simp only [numbersOfAll, Derivation.numbers, List.append_nil, List.mem_append,
      List.mem_cons] at member
    rcases member with isOld | rfl | rfl | isOld
    · exact Nat.lt_succ_of_lt (builds.known number (by simp [isOld]))
    · exact Nat.lt_succ_self _
    · exact Nat.lt_succ_of_lt contextKnown
    · exact Nat.lt_succ_of_lt (builds.known number (by simp [isOld]))

omit [TokenSource σ] in
/-- A rule at its end is a part of the context that waits for it. -/
theorem complete_context
    (shaped : network.CompilerShaped)
    (builds : Builds network firstRule run rule parts numbers leaves)
    (stopped : (network.state run.state).kind = .ruleStop) :
    Derivation.IsComplete network (.node run.context rule parts) ∧
      IsStored run.nodes (.node run.context rule parts) :=
  ⟨⟨builds.spelled.eq_stopOf shaped builds.inRules stopped ▸ builds.spelled, builds.complete⟩,
    builds.node, builds.stored⟩

omit [TokenSource σ] in
/-- At its end a rule becomes the last part of the context that waits for it. -/
theorem leave
    (shaped : network.CompilerShaped)
    (coherent : network.Coherent)
    (firstInRules : firstRule < network.ruleCount)
    (builds : Builds network firstRule run rule parts numbers leaves)
    {parent caller follow : Nat}
    (stopped : (network.state run.state).kind = .ruleStop)
    (plain : (network.state run.state).rule.any network.isLeftRecursive = false)
    (linked : run.link run.context = ⟨some parent, some caller⟩)
    (goesOn : network.followOf? caller = some follow) :
    HasBuilt network firstRule { run with context := parent, state := follow }
      (leaves ++ leavesOfAll parts) := by
  obtain ⟨complete, stored⟩ := builds.complete_context shaped stopped
  have isPlain : network.isLeftRecursive rule = false := by
    simpa [builds.spelled.rule_state shaped builds.inRules] using plain
  obtain ⟨-, spelled, -, -, waits, distinct, known, sizes, inRules⟩ := builds
  generalize isRecursions : run.recursions = recursions at waits
  cases waits with
  | outermost isLinked =>
      simp [Run.link, Array.getD_eq_getD_getElem?, isLinked] at linked
  | @called _ _ outerParent parentRule outerCaller target outerFollow precedence before
      outerNumbers outerLeaves outerRecursions outer isLinked node spelledBefore
      completeBefore storedBefore inside calls =>
      have same : outerParent = parent ∧ outerCaller = caller := by
        simpa [Run.link, Array.getD_eq_getD_getElem?, isLinked] using linked
      obtain ⟨rfl, rfl⟩ := same
      have isFollow : outerFollow = follow := by
        simpa [shaped.followOf?_eq calls] using goesOn
      subst isFollow
      have sameNumbers :
          outerNumbers ++ outerParent :: numbersOfAll (before ++ [.node run.context rule parts]) =
            outerNumbers ++ outerParent :: numbersOfAll before ++
              run.context :: numbersOfAll parts := by
        simp [numbersOfAll, Derivation.numbers]
      refine ⟨parentRule, before ++ [.node run.context rule parts], outerNumbers, outerLeaves,
        { node := ?_
          spelled := .call spelledBefore inside calls
          complete := by simp [completeBefore, AreComplete, complete]
          stored := by simp [storedBefore, AreStored, stored]
          waits := ?_
          distinct := by rw [sameNumbers]; exact distinct
          known := by rw [sameNumbers]; exact known
          linked := sizes
          inRules := outer.inRules coherent firstInRules },
        by simp [leavesOfAll, Derivation.leaves]⟩
      · simpa [nodeOf, openedChildren, isPlain, child] using node
      · simpa [openedRecursions, isPlain, isRecursions] using outer

omit [TokenSource σ] in
/-- At its end a left-recursive rule joins the context that waits for it as its last part. -/
theorem leaveRecursion
    (shaped : network.CompilerShaped)
    (coherent : network.Coherent)
    (firstInRules : firstRule < network.ruleCount)
    (builds : Builds network firstRule run rule parts numbers leaves)
    {outerLink : Link}
    {recursions : List Link}
    {caller follow : Nat}
    (stopped : (network.state run.state).kind = .ruleStop)
    (recursive : (network.state run.state).rule.any network.isLeftRecursive = true)
    (innermost : run.recursions = outerLink :: recursions)
    (linked : outerLink.caller = some caller)
    (goesOn : network.followOf? caller = some follow) :
    HasBuilt network firstRule
      { { run with recursions := recursions }.leaveRecursion outerLink.parent with
        state := follow }
      (leaves ++ leavesOfAll parts) := by
  obtain ⟨complete, stored⟩ := builds.complete_context shaped stopped
  have isRecursive : network.isLeftRecursive rule = true := by
    simpa [builds.spelled.rule_state shaped builds.inRules] using recursive
  obtain ⟨-, spelled, -, -, waits, distinct, known, sizes, inRules⟩ := builds
  generalize isRecursions : run.recursions = present at waits
  cases waits with
  | outermost isLinked =>
      rw [isRecursions] at innermost
      simp only [openedRecursions, isRecursive, ↓reduceIte, List.cons.injEq] at innermost
      rw [← innermost.1] at linked
      cases linked
  | @called _ _ parent parentRule outerCaller target outerFollow precedence before
      outerNumbers outerLeaves outerRecursions outer isLinked node spelledBefore
      completeBefore storedBefore inside calls =>
      rw [isRecursions] at innermost
      simp only [openedRecursions, isRecursive, ↓reduceIte, List.cons.injEq] at innermost
      obtain ⟨rfl, rfl⟩ := innermost
      cases linked
      have isFollow : outerFollow = follow := by
        simpa [shaped.followOf?_eq calls] using goesOn
      subst isFollow
      have sameLinks :
          run.links.modify run.context (fun link => { link with parent := some parent }) =
            run.links := by
        apply Array.ext_getElem?
        intro place
        rw [Array.getElem?_modify]
        split
        · rename_i isContext
          rw [← isContext, isLinked]
          rfl
        · rfl
      have sameNumbers :
          outerNumbers ++ parent :: numbersOfAll (before ++ [.node run.context rule parts]) =
            outerNumbers ++ parent :: numbersOfAll before ++
              run.context :: numbersOfAll parts := by
        simp [numbersOfAll, Derivation.numbers]
      have elsewhere :
          ∀ number, number ≠ parent →
            (ParseTree.addChild run.nodes parent (.rule run.context))[number]? =
              run.nodes[number]? := by
        exact fun number other => getElem?_addChild_of_ne (Ne.symm other) _
      have separate := distinct
      rw [List.append_assoc, List.nodup_append] at separate
      have parentFresh := (List.nodup_cons.mp separate.2.1).1
      simp only [Run.leaveRecursion, sameLinks, Run.attach]
      refine ⟨parentRule, before ++ [.node run.context rule parts], outerNumbers, outerLeaves,
        { node := ?_
          spelled := .call spelledBefore inside calls
          complete := by simp [completeBefore, AreComplete, complete]
          stored := ?_
          waits := ?_
          distinct := ?_
          known := ?_
          linked := by simpa using sizes
          inRules := outer.inRules coherent firstInRules },
        by simp [leavesOfAll, Derivation.leaves]⟩
      · rw [nodeOf_append]
        exact getElem?_addChild_self (by simpa [openedChildren, isRecursive, nodeOf] using node) _
      · refine AreStored.congr _ ?_
          (areStored_append.mpr ⟨storedBefore, stored, trivial⟩)
        intro number member
        refine elsewhere number ?_
        rintro rfl
        exact parentFresh (by simpa [numbersOfAll, Derivation.numbers] using member)
      · refine outer.congr ?_ (fun _ _ => rfl) rfl
        intro number member
        refine elsewhere number ?_
        rintro rfl
        exact separate.2.2 number member number List.mem_cons_self rfl
      · rw [sameNumbers]
        exact distinct
      · rw [sameNumbers]
        simpa using known

end Builds

end Parser

end GrammarService
