import GrammarService.Execution
import GrammarService.Proofs.Parser.Contexts

namespace GrammarService

/-!
# What executing a pair of grammars comes to

Executing either gives a tree as text, which is never empty as long as the rules have names, or an
error with at least one message. The rules come with the error as soon as there was a parser.
-/

namespace Text

/-- Spelling out breaks leaves no text empty. -/
theorem escapeBreaks_ne_empty
    {text : String}
    (filled : text ≠ "") :
    escapeBreaks text ≠ "" := by
  have escaped (character : Char) : escapeBreak character ≠ [] := by
    unfold escapeBreak
    split
    · simp
    · split
      · simp
      · split <;> simp
  have hasCharacter : text.toList ≠ [] := by simpa using filled
  obtain ⟨first, rest, isText⟩ := List.exists_cons_of_ne_nil hasCharacter
  simp [escapeBreaks, isText, escaped]

end Text

namespace ParseTree

/-- A rule is labelled by some text if its name is one. -/
theorem label_ne_empty
    {ruleNames : Array String}
    (named : ∀ name ∈ ruleNames, name ≠ "")
    (rule : Nat) :
    label ruleNames rule ≠ "" := by
  unfold label
  split
  · rename_i name found
    exact Text.escapeBreaks_ne_empty (named name (Array.mem_of_getElem? found))
  · simp [toString, Nat.repr]

/-- What is written behind a text does not take it away. -/
theorem writePieces_ne_empty
    (tree : ParseTree)
    (ruleNames : Array String)
    {written : String}
    (filled : written ≠ "")
    (pieces : List Piece) :
    tree.writePieces ruleNames written pieces ≠ "" := by
  fun_induction writePieces tree ruleNames written pieces with
  | case1 written => exact filled
  | case2 written text rest inductionHypothesis =>
      exact inductionHypothesis (by simp [filled])
  | case3 written depth child rest inductionHypothesis => exact inductionHypothesis filled

/-- A tree with a node is rendered as some text if its rules have names. -/
theorem render_ne_empty
    {tree : ParseTree}
    {ruleNames : Array String}
    (named : ∀ name ∈ ruleNames, name ≠ "")
    (hasNode : 0 < tree.nodes.size) :
    tree.render ruleNames ≠ "" := by
  obtain ⟨depth, isSize⟩ := Nat.exists_eq_add_of_le' hasNode
  rw [render, isSize, writePieces, expand]
  split
  · simp only [List.cons_append, List.nil_append, writePieces]
    simpa using label_ne_empty named _
  · rw [List.cons_append, writePieces]
    exact writePieces_ne_empty _ _ (by simp) _

end ParseTree

namespace Parser

variable {σ : Type} [TokenSource σ] {run after : Run σ}

section Nodes

omit [TokenSource σ] in
/-- Leaving a left-recursive rule adds and removes no node. -/
theorem Run.size_nodes_leaveRecursion
    (run : Run σ)
    (parent : Option Nat) :
    (run.leaveRecursion parent).nodes.size = run.nodes.size := by
  unfold Run.leaveRecursion Run.attach
  cases parent <;> simp

/-- No move removes a node. -/
theorem Moves.size_nodes_le
    {network : Network}
    (moves : Moves network run after) :
    run.nodes.size ≤ after.nodes.size := by
  cases moves with
  | free | leave => exact le_rfl
  | round => simp [Run.inRound, Run.wrapContext, Run.attach, Run.addContext]
  | token => simp
  | call =>
      dsimp only [Run.invoking, Run.enterRecursion, Run.enterRule, Run.attach, Run.addContext]
      split
      · simp
      · split <;> simp
  | leaveRecursion =>
      dsimp only
      rw [Run.size_nodes_leaveRecursion]

omit [TokenSource σ] in
/-- A walk that has entered its first rule has a node. -/
theorem Run.size_nodes_begun_pos
    (run : Run σ)
    (network : Network)
    (rule : Nat) :
    0 < (run.begun network rule).nodes.size := by
  dsimp only [Run.begun, Run.enterRecursion, Run.enterRule, Run.attach, Run.addContext]
  split
  · simp
  · split <;> simp

/-- A rule that is parsed leaves at least one node. -/
theorem size_nodes_pos_of_parseRule
    {grammar : ParserGrammar}
    {rule root : Nat}
    (parsed : Ends (parseRule grammar rule) run root after) :
    0 < after.nodes.size := by
  rw [parseRule_eq] at parsed
  obtain ⟨_, _, begun, parsed⟩ := ends_bind_iff.mp parsed
  obtain rfl := ends_modify_iff.mp begun
  obtain ⟨_, walked, walks, leaves⟩ := ends_bind_iff.mp parsed
  have hasNode : 0 < walked.nodes.size := by
    refine (walks.walk_induction (fun run => 0 < run.nodes.size) (fun _ hasNode => hasNode) ?_
      (run.size_nodes_begun_pos grammar.network rule)).1
    intro before next hasNode _ steps
    obtain ⟨between, quiet, moves⟩ := steps.moves_of_stepOnce
    have sameNodes : between.nodes = before.nodes := by rw [quiet.same]
    exact (sameNodes ▸ hasNode).trans_le moves.size_nodes_le
  unfold leaveFirst at leaves
  split at leaves
  · obtain ⟨_, _, got, leaves⟩ := ends_bind_iff.mp leaves
    obtain ⟨rfl, rfl⟩ := ends_get_iff.mp got
    split at leaves
    · simp at leaves
    · obtain ⟨_, _, isSet, leaves⟩ := ends_bind_iff.mp leaves
      obtain rfl := ends_set_iff.mp isSet
      obtain ⟨-, rfl⟩ := ends_pure_iff.mp leaves
      rwa [Run.size_nodes_leaveRecursion]
  · obtain ⟨_, _, got, leaves⟩ := ends_bind_iff.mp leaves
    obtain ⟨rfl, rfl⟩ := ends_get_iff.mp got
    obtain ⟨-, rfl⟩ := ends_pure_iff.mp leaves
    exact hasNode

end Nodes

/-- The result of parsing a rule, from what the walk comes to. -/
theorem exists_resultOf_invokeNumber
    (parser : Parser σ)
    (rule : Nat) :
    ∃ errors,
      (parser.invokeNumber rule).1 =
        resultOf errors
          (outcome (parseRule parser.grammar rule) (Run.start parser.tokens parser.cache)).2.nodes
          (outcome (parseRule parser.grammar rule) (Run.start parser.tokens parser.cache)).1 :=
  ⟨_, rfl⟩

/-- A tree that a rule is parsed to consists of the nodes of a walk that has ended. -/
theorem exists_ends_of_invoke
    {parser : Parser σ}
    {rule : String}
    {tree : ParseTree}
    (parsed : (parser.invoke rule).1 = .ok tree) :
    ∃ number after,
      parser.grammar.ruleNames.findIdx? (· == rule) = some number ∧
        Ends (parseRule parser.grammar number) (Run.start parser.tokens parser.cache) tree.root
          after ∧
        tree.nodes = after.nodes := by
  unfold invoke at parsed
  split at parsed
  · cases parsed
  · rename_i number isNumber
    obtain ⟨errors, isResult⟩ := parser.exists_resultOf_invokeNumber number
    rw [isResult] at parsed
    cases comes :
        outcome (parseRule parser.grammar number) (Run.start parser.tokens parser.cache) with
    | mk result after =>
        rw [comes] at parsed
        cases result with
        | error failure => cases failure <;> cases parsed
        | ok root =>
            simp only [resultOf] at parsed
            split at parsed
            · cases parsed
              exact ⟨number, after, isNumber, comes, rfl⟩
            · cases parsed

/-- A tree that a rule is parsed to has a node. -/
theorem size_nodes_pos_of_invoke
    {parser : Parser σ}
    {rule : String}
    {tree : ParseTree}
    (parsed : (parser.invoke rule).1 = .ok tree) :
    0 < tree.nodes.size := by
  obtain ⟨number, after, -, ends, sameNodes⟩ := exists_ends_of_invoke parsed
  rw [sameNodes]
  exact size_nodes_pos_of_parseRule ends

/-- A result that is no tree has at least one message. -/
theorem messages_ne_nil_of_resultOf
    {errors : List SyntaxError}
    {nodes : Array ParseTree.RuleNode}
    {result : Except Failure Nat}
    {error : RuleError}
    (failed : resultOf errors nodes result = .error error) :
    error.messages ≠ [] := by
  cases result with
  | error failure => cases failure <;> cases failed <;> simp [RuleError.messages]
  | ok root =>
      simp only [resultOf] at failed
      split at failed
      · cases failed
      · rename_i filled
        cases failed
        simpa [RuleError.messages] using filled

/-- A rule that is not parsed gives at least one message. -/
theorem messages_ne_nil_of_invoke
    {parser : Parser σ}
    {rule : String}
    {error : RuleError}
    (failed : (parser.invoke rule).1 = .error error) :
    error.messages ≠ [] := by
  unfold invoke at failed
  split at failed
  · cases failed
    simp [RuleError.messages]
  · rename_i number _
    obtain ⟨errors, isResult⟩ := parser.exists_resultOf_invokeNumber number
    exact messages_ne_nil_of_resultOf (isResult.symm.trans failed)

end Parser

/-- A pair of grammars is put to work on a source text, with a parser over the lexer's tokens. -/
def PutsToWork
    (parser : ParserGrammar)
    (lexer : LexerGrammar)
    (source : String)
    (working : Parser Lexer) :
    Prop :=
  ∃ tokens,
    Lexer.create lexer source = .ok tokens ∧
      Parser.create parser (TokenStream.ofSource tokens) = .ok working

/-- What executing can come to. -/
inductive Executes
    (parser : ParserGrammar)
    (lexer : LexerGrammar)
    (source rule : String) :
    Except ExecutionError ParseOutput → Prop where
  | notConstructed
      (idle : ∀ working, ¬ PutsToWork parser lexer source working)
      (error : ConstructionError) :
      Executes parser lexer source rule (.error (.construction error))
  | failed
      {working : Parser Lexer}
      (works : PutsToWork parser lexer source working)
      {error : ExecutionError}
      (rules : error.rules = parser.ruleNames.toList)
      (messages : error.messages ≠ []) :
      Executes parser lexer source rule (.error error)
  | parsed
      {working : Parser Lexer}
      (works : PutsToWork parser lexer source working)
      (isRule : rule ∈ parser.ruleNames.toList)
      {tree : ParseTree}
      (parses : (working.invoke rule).1 = .ok tree) :
      Executes parser lexer source rule
        (.ok ⟨parser.ruleNames.toList, tree.render parser.ruleNames⟩)

/-- Executing comes to what it can come to. -/
theorem executes_execute
    (parser : ParserGrammar)
    (lexer : LexerGrammar)
    (source rule : String) :
    Executes parser lexer source rule (execute parser lexer source rule) := by
  unfold execute
  cases lexes : Lexer.create lexer source with
  | error error =>
      refine .notConstructed ?_ error
      rintro working ⟨tokens, isLexer, -⟩
      cases lexes.symm.trans isLexer
  | ok tokens =>
      simp only [Except.mapError, bind, Except.bind, pure, Except.pure]
      cases creates : Parser.create parser (TokenStream.ofSource tokens) with
      | error error =>
          refine .notConstructed ?_ error
          rintro working ⟨others, isLexer, isParser⟩
          cases lexes.symm.trans isLexer
          cases creates.symm.trans isParser
      | ok working =>
          have works : PutsToWork parser lexer source working := ⟨tokens, lexes, creates⟩
          dsimp only
          split
          · exact .failed works rfl (by simp [ExecutionError.messages])
          · split
            · exact .failed works rfl (by simp [ExecutionError.messages])
            · rename_i isRule
              cases parses : (working.invoke rule).1 with
              | error error => exact .failed works rfl (Parser.messages_ne_nil_of_invoke parses)
              | ok tree => exact .parsed works (by simpa using isRule) parses

end GrammarService
