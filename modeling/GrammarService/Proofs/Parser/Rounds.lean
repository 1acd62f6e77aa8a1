import GrammarService.Proofs.Parser.Contexts
import GrammarService.Proofs.Parser.Progress

namespace GrammarService

/-!
# How many rounds a walk takes

A walk counts its steps since a token was consumed, and gives up when there are too many. So it
takes only so many rounds for each token that it consumes. Visible tokens are consumed once each;
the end of the input can be consumed again and again, and then nothing bounds the rounds.
-/

namespace ParseTree

/-- Whether a child is a token of a certain kind. -/
def Child.isLeaf
    (isCounted : Token → Bool) :
    Child → Bool
  | .token leaf => isCounted leaf
  | .rule _ => false

/-- The number of tokens of a certain kind among the children of some nodes. -/
def leafCount
    (isCounted : Token → Bool)
    (nodes : Array RuleNode) :
    Nat :=
  (nodes.toList.map fun node => node.children.countP (Child.isLeaf isCounted)).sum

/-- Changing an element changes a sum by as much as it changes the element's share. -/
theorem sum_map_modify
    {α : Type}
    {weight : α → Nat}
    {change : α → α}
    {more : Nat}
    (adds : ∀ item, weight (change item) = weight item + more)
    {items : List α}
    {place : Nat}
    (inBounds : place < items.length) :
    ((items.modify place change).map weight).sum = (items.map weight).sum + more := by
  induction items generalizing place with
  | nil => simp at inBounds
  | cons head tail inductionHypothesis =>
      cases place with
      | zero =>
          simp only [List.modify_zero_cons, List.map_cons, List.sum_cons, adds]
          omega
      | succ place =>
          have shorter : place < tail.length := by simpa using inBounds
          simp only [List.modify_succ_cons, List.map_cons, List.sum_cons,
            inductionHypothesis shorter]
          omega

variable {isCounted : Token → Bool} {nodes : Array RuleNode}

/-- A child that joins a node counts if it is a token of the kind. -/
theorem leafCount_addChild
    {parent : Nat}
    (inBounds : parent < nodes.size)
    (child : Child) :
    leafCount isCounted (addChild nodes parent child) =
      leafCount isCounted nodes + if child.isLeaf isCounted then 1 else 0 := by
  unfold leafCount addChild
  rw [Array.toList_modify]
  refine sum_map_modify (fun node => ?_) (by simpa using inBounds)
  simp only [Array.countP_push]

/-- A node without children has no tokens. -/
@[simp] theorem leafCount_push
    (nodes : Array RuleNode)
    (rule : Nat) :
    leafCount isCounted (nodes.push ⟨rule, #[]⟩) = leafCount isCounted nodes := by
  simp [leafCount]

end ParseTree

namespace Parser

open GrammarService.ParseTree

variable {σ : Type} {run after : Run σ}

/-- Every context that a walk is in or can come back to has a node. -/
structure Run.Rooted (run : Run σ) : Prop where
  linked : run.links.size = run.nodes.size
  context : run.context < run.nodes.size
  parents :
    ∀ link ∈ run.links, ∀ parent, link.parent = some parent → parent < run.nodes.size
  recursions :
    ∀ link ∈ run.recursions, ∀ parent, link.parent = some parent → parent < run.nodes.size

namespace Run.Rooted

/-- The contexts of a walk do not depend on what was looked at and remembered. -/
theorem congr
    (rooted : run.Rooted)
    (nodes : after.nodes = run.nodes)
    (links : after.links = run.links)
    (context : after.context = run.context)
    (recursions : after.recursions = run.recursions) :
    after.Rooted where
  linked := by rw [nodes, links, rooted.linked]
  context := by rw [nodes, context]; exact rooted.context
  parents := by rw [nodes, links]; exact rooted.parents
  recursions := by rw [nodes, recursions]; exact rooted.recursions

/-- The innermost context is linked. -/
theorem mem_links (rooted : run.Rooted) : run.link run.context ∈ run.links := by
  have inBounds : run.context < run.links.size := rooted.linked ▸ rooted.context
  simp [Run.link, Array.getD_eq_getD_getElem?, inBounds]

/-- A walk that has entered its first rule is in a context that has a node. -/
theorem begun
    [TokenSource σ]
    (tokens : TokenStream σ)
    (cache : PredictionCache)
    (network : Network)
    (rule : Nat) :
    ((Run.start tokens cache).begun network rule).Rooted := by
  cases recursive : network.isLeftRecursive rule with
  | true =>
      simp only [Run.begun, recursive, if_true]
      exact {
        linked := rfl
        context := by simp [Run.enterRecursion, Run.addContext]
        parents := by simp [Run.enterRecursion, Run.addContext, Run.start]
        recursions := by simp [Run.enterRecursion, Run.addContext, Run.start, Run.link] }
  | false =>
      simp only [Run.begun, recursive, Bool.false_eq_true, if_false]
      exact {
        linked := rfl
        context := by simp [Run.enterRule, Run.addContext, Run.start, Run.link]
        parents := by simp [Run.enterRule, Run.addContext, Run.start, Run.link]
        recursions := by simp [Run.enterRule, Run.addContext, Run.start, Run.link] }

/-- Whatever a step does, the walk comes back to contexts that have nodes only. -/
theorem moves
    [TokenSource σ]
    {network : Network}
    (rooted : run.Rooted)
    (moves : Moves network run after) :
    after.Rooted := by
  have linked := rooted.linked
  have context := rooted.context
  cases moves with
  | free => exact rooted.congr rfl rfl rfl rfl
  | token => exact ⟨by simpa using linked, by simpa using context, by simpa using rooted.parents,
      by simpa using rooted.recursions⟩
  | round _ _ _ _ _ _ innermost =>
      have outerInBounds := rooted.recursions _ (List.mem_of_mem_head? innermost)
      refine ⟨by simp [Run.inRound, Run.addContext, Run.wrapContext, Run.attach, linked],
        by simp [Run.inRound, Run.addContext, Run.wrapContext, Run.attach], ?_, ?_⟩
      · intro link member parent isParent
        simp only [Run.inRound, Run.addContext, Run.wrapContext, Run.attach, size_addChild,
          Array.size_push] at member ⊢
        rcases Array.mem_or_eq_of_mem_setIfInBounds member with isOld | rfl
        · rcases Array.mem_push.mp isOld with isOld | rfl
          · exact Nat.lt_succ_of_lt (rooted.parents link isOld parent isParent)
          · exact Nat.lt_succ_of_lt (outerInBounds parent isParent)
        · cases isParent
          exact Nat.lt_succ_self _
      · intro link member parent isParent
        simp only [Run.inRound, Run.addContext, Run.wrapContext, Run.attach, size_addChild,
          Array.size_push] at member ⊢
        exact Nat.lt_succ_of_lt (rooted.recursions link member parent isParent)
  | call =>
      rw [Run.invoking_eq linked]
      dsimp only
      refine ⟨?_, ?_, ?_, ?_⟩
      · split <;> simp [linked]
      · split <;> simp
      · intro link member parent isParent
        rcases Array.mem_push.mp member with isOld | rfl
        · have inBounds := rooted.parents link isOld parent isParent
          split <;> simp <;> omega
        · cases isParent
          split <;> simp <;> omega
      · intro link member parent isParent
        have inBounds :
            parent < run.nodes.size + 1 := by
          split at member
          · rcases List.mem_cons.mp member with rfl | isOld
            · cases isParent
              omega
            · exact Nat.lt_succ_of_lt (rooted.recursions link isOld parent isParent)
          · exact Nat.lt_succ_of_lt (rooted.recursions link member parent isParent)
        split <;> simpa using inBounds
  | leave _ _ isLinked _ =>
      exact ⟨linked, rooted.parents _ rooted.mem_links _ (by rw [isLinked]), rooted.parents,
        rooted.recursions⟩
  | @leaveRecursion outer recursions caller follow _ _ innermost _ _ =>
      have outerInBounds :=
        rooted.recursions outer (by rw [innermost]; exact List.mem_cons_self)
      have others : ∀ link ∈ recursions, ∀ parent, link.parent = some parent →
          parent < run.nodes.size := fun link member =>
        rooted.recursions link (by rw [innermost]; exact List.mem_cons_of_mem _ member)
      have parents :
          ∀ link ∈ run.links.modify run.context (fun link => { link with parent := outer.parent }),
            ∀ parent, link.parent = some parent → parent < run.nodes.size := by
        intro link member parent isParent
        obtain ⟨place, isThere⟩ := Array.mem_iff_getElem?.mp member
        rw [Array.getElem?_modify] at isThere
        split at isThere
        · obtain ⟨old, _, rfl⟩ := Option.map_eq_some_iff.mp isThere
          exact outerInBounds parent isParent
        · exact rooted.parents link (Array.mem_of_getElem? isThere) parent isParent
      cases isParent : outer.parent with
      | none =>
          rw [isParent] at parents
          simp only [Run.leaveRecursion]
          exact ⟨by simpa using linked, context, parents, others⟩
      | some parent =>
          rw [isParent] at parents
          simp only [Run.leaveRecursion, Run.attach]
          exact ⟨by simpa using linked, by simpa using outerInBounds parent isParent,
            by simpa using parents, by simpa using others⟩

end Run.Rooted

/-- A step that consumes nothing leaves the leaves and the current token alone. -/
structure Rests
    (before after : Run σ) :
    Prop where
  leaves : ∀ isCounted, leafCount isCounted after.nodes = leafCount isCounted before.nodes
  idleSteps : after.idleSteps = before.idleSteps
  tokens : after.tokens = before.tokens
  position : after.position = before.position

/-- A step consumes the current token, or it consumes nothing. -/
theorem Moves.rests_or_consumes
    [TokenSource σ]
    {network : Network}
    (rooted : run.Rooted)
    (moves : Moves network run after) :
    Rests run after ∨ ∃ state, after = { run.consumed with state := state } := by
  cases moves with
  | token => exact .inr ⟨_, rfl⟩
  | free => exact .inl ⟨fun _ => rfl, rfl, rfl, rfl⟩
  | leave => exact .inl ⟨fun _ => rfl, rfl, rfl, rfl⟩
  | round =>
      refine .inl ⟨fun isCounted => ?_, rfl, rfl, rfl⟩
      simp only [Run.inRound, Run.addContext, Run.wrapContext, Run.attach]
      rw [leafCount_addChild (by simp)]
      simp [Child.isLeaf]
  | call =>
      rw [Run.invoking_eq rooted.linked]
      refine .inl ⟨fun isCounted => ?_, rfl, rfl, rfl⟩
      dsimp only
      split
      · simp
      · rw [leafCount_addChild (by simpa using Nat.lt_succ_of_lt rooted.context)]
        simp [Child.isLeaf]
  | @leaveRecursion outer recursions caller follow _ _ innermost _ _ =>
      have outerInBounds :=
        rooted.recursions outer (by rw [innermost]; exact List.mem_cons_self)
      cases isParent : outer.parent with
      | none => exact .inl ⟨fun _ => rfl, rfl, rfl, rfl⟩
      | some parent =>
          refine .inl ⟨fun isCounted => ?_, rfl, rfl, rfl⟩
          simp only [Run.leaveRecursion, Run.attach]
          rw [leafCount_addChild (outerInBounds parent isParent)]
          simp [Child.isLeaf]

section Pace

variable [TokenSource σ]

/--
A walk that keeps pace has read a token for each of its leaves, and has taken no more rounds than
the progress counter admits for so many tokens.
-/
structure Paced
    (grammar : ParserGrammar)
    (visible : List Token)
    (rounds : Nat)
    (run : Run σ) :
    Prop where
  rooted : run.Rooted
  reads :
    ∃ read,
      HasRead visible run read ∧
        ∀ isCounted, leafCount isCounted run.nodes = read.countP isCounted
  notIdle : run.idleSteps ≤ idleLimit grammar.network
  rounds_le :
    rounds ≤ leafCount (fun _ => true) run.nodes * idleLimit grammar.network + run.idleSteps

namespace Paced

variable {grammar : ParserGrammar} {visible : List Token} {rounds : Nat}

/-- A walk that has entered its first rule has taken no round and consumed no token. -/
theorem begun
    {tokens : TokenStream σ}
    (sound : tokens.Sound)
    (cache : PredictionCache)
    (rule : Nat) :
    Paced grammar tokens.visible 0 ((Run.start tokens cache).begun grammar.network rule) where
  rooted := .begun tokens cache grammar.network rule
  reads := by
    have position :
        ((Run.start tokens cache).begun grammar.network rule).position =
          (Run.start tokens cache).position := by
      unfold Run.begun Run.enterRule
      split
      · rfl
      · dsimp only
        split <;> rfl
    refine ⟨[], (HasRead.start sound cache).congr (Run.tokens_begun _ _ _) position, ?_⟩
    intro isCounted
    unfold Run.begun Run.enterRule
    split
    · simp [Run.enterRecursion, Run.addContext, Run.start, leafCount]
    · simp [Run.addContext, Run.start, Run.link, leafCount]
  notIdle := by
    unfold Run.begun Run.enterRule
    split
    · exact Nat.zero_le _
    · dsimp only
      split <;> exact Nat.zero_le _
  rounds_le := Nat.zero_le _

/-- Another round keeps the pace: the progress counter goes up, or a token is consumed. -/
theorem advance
    (paced : Paced grammar visible rounds run)
    (goesOn : outcome (Parser.advance grammar) run = (.ok false, after)) :
    Paced grammar visible (rounds + 1) after := by
  obtain ⟨notIdle, -, stepped⟩ := goesOn_iff.mp goesOn
  obtain ⟨between, quiet, moves⟩ := Ends.moves_of_stepOnce stepped
  obtain ⟨read, hasRead, isRead⟩ := paced.reads
  have readCounted : HasRead visible run.counted read := hasRead.congr rfl rfl
  have readBetween := readCounted.quiet quiet
  have nodes : between.nodes = run.nodes := by
    rw [quiet.same]
    rfl
  have idleSteps : between.idleSteps = run.idleSteps + 1 := by
    rw [quiet.same]
    rfl
  have rooted : between.Rooted := by
    refine paced.rooted.congr nodes ?_ ?_ ?_ <;> (rw [quiet.same]; rfl)
  have rounds_le := paced.rounds_le
  rcases moves.rests_or_consumes rooted with rests | ⟨state, rfl⟩
  · refine ⟨rooted.moves moves, ⟨read, readBetween.congr rests.tokens rests.position, ?_⟩, ?_, ?_⟩
    · intro isCounted
      rw [rests.leaves, nodes, isRead]
    · rw [rests.idleSteps, idleSteps]
      omega
    · rw [rests.leaves, rests.idleSteps, nodes, idleSteps]
      omega
  · have counts :
        ∀ isCounted,
          leafCount isCounted between.consumed.nodes =
            leafCount isCounted run.nodes + if isCounted between.current then 1 else 0 := by
      intro isCounted
      rw [Run.nodes_consumed, leafCount_addChild rooted.context, nodes]
      rfl
    refine ⟨rooted.moves moves, ⟨read ++ [between.current], readBetween.consumed.congr rfl rfl, ?_⟩,
      Nat.zero_le _, ?_⟩
    · intro isCounted
      rw [List.countP_append, ← isRead]
      exact (counts isCounted).trans (by simp [List.countP_singleton])
    · change rounds + 1 ≤ leafCount _ between.consumed.nodes * _ + 0
      rw [counts, if_pos rfl, Nat.add_mul]
      omega

/-- A whole stretch of a walk keeps the pace. -/
theorem advances
    {count : Nat}
    (paced : Paced grammar visible rounds run)
    (advances : Advances grammar count run after) :
    Paced grammar visible (rounds + count) after := by
  induction advances generalizing rounds with
  | stay => exact paced
  | step goesOn _ inductionHypothesis =>
      rw [Nat.add_left_comm, Nat.add_comm]
      exact inductionHypothesis (paced.advance goesOn)

/-- Of the visible tokens, the end of the input is the only one that is consumed twice. -/
theorem leafCount_le
    (paced : Paced grammar visible rounds run) :
    leafCount (fun _ => true) run.nodes + 1 ≤
      visible.length + leafCount Token.isEnd run.nodes := by
  obtain ⟨read, hasRead, isRead⟩ := paced.reads
  obtain ⟨repeats, rfl, ended⟩ := hasRead.read
  have behind : run.tokens.visibleBefore run.position ++ [run.current] =
      run.tokens.visibleBefore (run.position + 1) :=
    (TokenStream.visibleBefore_succ hasRead.getElem?_all hasRead.isVisible).symm
  have few : (run.tokens.visibleBefore run.position).length + 1 ≤ visible.length := by
    have split := run.tokens.visible_eq_append (run.position + 1)
    rw [hasRead.visible, ← behind] at split
    rw [split]
    simp
  rw [isRead, isRead, List.countP_true, List.length_append, List.length_replicate,
    List.countP_append]
  rcases Nat.eq_zero_or_pos repeats with rfl | isPositive
  · omega
  · rw [List.countP_replicate, if_pos (ended isPositive)]
    omega

end Paced

variable {grammar : ParserGrammar}

/-- A walk returns in the round behind so many others, which led it to `last`. -/
structure ReturnsFrom
    (grammar : ParserGrammar)
    (rounds : Nat)
    (run last : Run σ) :
    Prop where
  advances : Advances grammar rounds run last
  returns : (outcome (advance grammar) last).1 ≠ .ok false

/-- A walk returns, or it takes any number of rounds. -/
theorem returnsFrom_or_advances
    (run : Run σ)
    (rounds : Nat) :
    (∃ before last, ReturnsFrom grammar before run last) ∨
      ∃ after, Advances grammar rounds run after := by
  induction rounds generalizing run with
  | zero => exact .inr ⟨run, .stay⟩
  | succ rounds inductionHypothesis =>
      by_cases goesOn : (outcome (advance grammar) run).1 = .ok false
      · have isNext : outcome (advance grammar) run =
            (.ok false, (outcome (advance grammar) run).2) := by
          rw [← goesOn]
        rcases inductionHypothesis (outcome (advance grammar) run).2 with
          ⟨before, last, returns⟩ | ⟨after, advances⟩
        · exact .inl ⟨before + 1, last, .step isNext returns.advances, returns.returns⟩
        · exact .inr ⟨after, .step isNext advances⟩
      · exact .inl ⟨0, run, .stay, goesOn⟩

/-- Rounds are taken one after the other. -/
theorem advances_succ_iff
    {rounds : Nat} :
    Advances grammar (rounds + 1) run after ↔
      outcome (advance grammar) run = (.ok false, (outcome (advance grammar) run).2) ∧
        Advances grammar rounds (outcome (advance grammar) run).2 after := by
  constructor
  · intro advances
    cases advances with
    | step goesOn rest =>
        rw [goesOn]
        exact ⟨rfl, rest⟩
  · rintro ⟨goesOn, rest⟩
    exact .step goesOn rest

/-- A walk that has returned takes no further round. -/
theorem ReturnsFrom.not_advances
    {rounds : Nat}
    {last : Run σ}
    (returns : ReturnsFrom grammar rounds run last) :
    ¬ Advances grammar (rounds + 1) run after := by
  obtain ⟨advances, notOn⟩ := returns
  induction advances with
  | stay =>
      intro further
      exact notOn (by rw [(advances_succ_iff.mp further).1])
  | step goesOn rest inductionHypothesis =>
      intro further
      have behind := (advances_succ_iff.mp further).2
      rw [goesOn] at behind
      exact inductionHypothesis notOn behind

/-- A walk comes to something exactly if it returns. -/
theorem isSome_walk?_iff :
    (Run.walk? grammar run).isSome = true ↔ ∃ rounds last, ReturnsFrom grammar rounds run last := by
  constructor
  · intro isSome
    obtain ⟨comes, isRun⟩ := Option.isSome_iff_exists.mp isSome
    refine walk?_induction (fun run _ => ∃ rounds last, ReturnsFrom grammar rounds run last)
      ?_ ?_ ?_ isRun
    · rintro run next comes goesOn ⟨rounds, last, returns⟩
      exact ⟨rounds + 1, last, .step goesOn returns.advances, returns.returns⟩
    · intro run next ended
      exact ⟨0, run, .stay, by simp [ended]⟩
    · intro run next failure failed
      exact ⟨0, run, .stay, by simp [failed]⟩
  · rintro ⟨rounds, last, advances, notOn⟩
    rw [advances.walk?_eq]
    cases isNext : outcome (advance grammar) last with
    | mk result next =>
        rw [isNext] at notOn
        rcases result with failure | isEnd
        · rw [walk?_of_failed isNext]
          rfl
        · cases isEnd with
          | true =>
              rw [walk?_of_ended isNext]
              rfl
          | false => exact absurd rfl notOn

/--
A walk whose tokens come from a source returns after so many rounds as the progress counter admits
for its tokens, the end of the input counted as often as it was consumed. Only a walk that consumes
the end of the input again and again does not return.

With one consumed end and `k` visible tokens before it, these are `(k + 2) * (idleLimit + 1)`.
-/
theorem returns_within
    (grammar : ParserGrammar)
    (source : σ)
    (cache : PredictionCache)
    (rule : Nat) :
    let tokens := TokenStream.ofSource source
    let begun := (Run.start tokens cache).begun grammar.network rule
    (∃ rounds last,
      ReturnsFrom grammar rounds begun last ∧
        rounds + 1 ≤
          (tokens.visible.length + leafCount Token.isEnd last.nodes) *
            (idleLimit grammar.network + 1)) ∨
      ∀ ends, ∃ rounds after,
        Advances grammar rounds begun after ∧ ends ≤ leafCount Token.isEnd after.nodes := by
  intro tokens begun
  have sound : tokens.Sound := .ofSource source
  have bounded :
      ∀ {rounds : Nat} {after : Run σ},
        Advances grammar rounds begun after →
          rounds + 1 ≤
            (tokens.visible.length + leafCount Token.isEnd after.nodes) *
              (idleLimit grammar.network + 1) := by
    intro rounds after advances
    have paced := (Paced.begun sound cache rule).advances advances
    rw [Nat.zero_add] at paced
    have few := paced.leafCount_le
    have positive : 0 < idleLimit grammar.network := by
      unfold idleLimit
      omega
    have notIdle := paced.notIdle
    calc
      rounds + 1 ≤
          leafCount (fun _ => true) after.nodes * idleLimit grammar.network +
            idleLimit grammar.network + 1 := by
        have rounds_le := paced.rounds_le
        omega
      _ = (leafCount (fun _ => true) after.nodes + 1) * idleLimit grammar.network + 1 := by
        rw [Nat.succ_mul]
      _ ≤ (tokens.visible.length + leafCount Token.isEnd after.nodes) *
            idleLimit grammar.network + 1 :=
        Nat.succ_le_succ (Nat.mul_le_mul_right _ few)
      _ ≤ _ := by
        rw [Nat.mul_succ]
        omega
  by_cases returns : ∃ rounds last, ReturnsFrom grammar rounds begun last
  · obtain ⟨rounds, last, returns⟩ := returns
    exact .inl ⟨rounds, last, returns, bounded returns.advances⟩
  · refine .inr fun ends => ?_
    -- So many rounds that fewer ends do not account for them.
    obtain ⟨after, advances⟩ :=
      (returnsFrom_or_advances begun
        ((tokens.visible.length + ends) * (idleLimit grammar.network + 1))).resolve_left returns
    refine ⟨_, after, advances, ?_⟩
    by_contra fewer
    have rounds_le := bounded advances
    have less :
        (tokens.visible.length + leafCount Token.isEnd after.nodes) *
            (idleLimit grammar.network + 1) ≤
          (tokens.visible.length + ends) * (idleLimit grammar.network + 1) :=
      Nat.mul_le_mul_right _ (by omega)
    omega

end Pace

namespace EndLoop

/-- The data of a parser for a rule that consumes the end of the input over and over, at state 2. -/
def data : RecognizerData where
  literalNames := []
  symbolicNames := []
  ruleNames := ["s"]
  channelNames := []
  modeNames := []
  encodedNetwork :=
    [4, 1, 1, 3, 2, 0, 7, 0, 1, 0, 0, 0, 1, 0, 0, 0,
      2,
      0, 2, 1, 0, 0, 0, 2, 2, 5, 0, 0, 1,
      0]

/-- The grammar itself. -/
def grammar : ParserGrammar :=
  (ParserGrammar.ofData "EndLoop" data).toOption.getD default

/-- No tokens but the end of the input. -/
def source : ListedTokens :=
  ListedTokens.ofList []

/-- A walk in the loop at the end of the input. -/
structure IsLooping (run : Run ListedTokens) : Prop where
  state : run.state = 2
  current : run.current.type = endOfInput
  notIdle : run.idleSteps < idleLimit grammar.network

namespace IsLooping

variable {run : Run ListedTokens}

theorem inside (looping : IsLooping run) :
    (grammar.network.state run.state).kind ≠ .ruleStop := by
  have isBasic : (grammar.network.state 2).kind = .basic := by decide +kernel
  rw [looping.state, isBasic]
  decide

theorem single (looping : IsLooping run) :
    (grammar.network.state run.state).edges = [.atom 2 run.current.type] := by
  rw [looping.state, looping.current]
  decide +kernel

/-- In the next round the end of the input is consumed and is still to be consumed. -/
theorem consumed (looping : IsLooping run) : IsLooping { run.consumed with state := 2 } := by
  have isEnd : (run.tokens.token run.position).isEnd = true := by
    simpa [Token.isEnd, Run.current] using looping.current
  refine ⟨rfl, ?_, ?_⟩
  · simpa [Run.current, Run.consumed, isEnd] using looping.current
  · change 0 < idleLimit grammar.network
    unfold idleLimit
    omega

/-- A walk that is in the loop stays there for any number of rounds. -/
theorem advances
    (looping : IsLooping run)
    (rounds : Nat) :
    ∃ after, Advances grammar rounds run after := by
  induction rounds generalizing run with
  | zero => exact ⟨run, .stay⟩
  | succ rounds inductionHypothesis =>
      obtain ⟨after, rest⟩ := inductionHypothesis looping.consumed
      have first := Advances.token looping.notIdle looping.inside looping.single
      exact ⟨after, Nat.add_comm 1 rounds ▸ first.trans rest⟩

end IsLooping

/-- The walk of the only rule. -/
def begun : Run ListedTokens :=
  (Run.start (TokenStream.ofSource source) (PredictionCache.initial grammar.network)).begun
    grammar.network 0

/-- The walk comes into the loop in its first round. -/
theorem looping_begun :
    ∃ first, Advances grammar 1 begun first ∧ IsLooping first := by
  have start : begun.state = 0 := by decide +kernel
  have isStart : (grammar.network.state 0).kind = .ruleStart := by decide +kernel
  have single : (grammar.network.state 0).edges = [.epsilon 2 none] := by decide +kernel
  have fresh : begun.idleSteps = 0 := by decide +kernel
  have current : begun.current.type = endOfInput := by decide +kernel
  refine ⟨{ begun.counted with state := 2 }, ?_, rfl, current, ?_⟩
  · refine Advances.free ?_ ?_ ?_ ?_
    · rw [fresh]
      unfold idleLimit
      omega
    · rw [start, isStart]
      decide
    · rw [start, isStart]
      decide
    · rw [start, single]
  · change begun.idleSteps + 1 < idleLimit grammar.network
    rw [fresh]
    unfold idleLimit
    omega

set_option maxRecDepth 20000 in
/--
There is no visible token but the end of the input, yet the walk does not return in the rounds that
would do for a single end. It does not return at all.
-/
theorem never_returns :
    ParserGrammar.ofData "EndLoop" data = .ok grammar ∧
      (TokenStream.ofSource source).visible.length = 0 + 1 ∧
        (¬ ∃ rounds last,
          ReturnsFrom grammar rounds begun last ∧
            rounds + 1 ≤ (0 + 2) * (idleLimit grammar.network + 1)) ∧
          Run.walk? grammar begun = none := by
  have endless : ∀ rounds, ∃ after, Advances grammar rounds begun after := by
    intro rounds
    obtain ⟨first, begins, looping⟩ := looping_begun
    cases rounds with
    | zero => exact ⟨begun, .stay⟩
    | succ rounds =>
        obtain ⟨after, advances⟩ := looping.advances rounds
        exact ⟨after, Nat.add_comm 1 rounds ▸ begins.trans advances⟩
  have notReturned : ¬ ∃ rounds last, ReturnsFrom grammar rounds begun last := by
    rintro ⟨rounds, last, returns⟩
    obtain ⟨after, advances⟩ := endless (rounds + 1)
    exact returns.not_advances advances
  refine ⟨by cbv, by cbv, ?_, ?_⟩
  · rintro ⟨rounds, last, returns, -⟩
    exact notReturned ⟨rounds, last, returns⟩
  · by_contra isSome
    exact notReturned (isSome_walk?_iff.mp (Option.isSome_iff_ne_none.mpr isSome))

end EndLoop

end Parser

end GrammarService
