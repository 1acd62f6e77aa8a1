import GrammarService.Request.Basic
import GrammarService.Proofs.Artifact.Loading

namespace GrammarService

/-!
# The grammars of a request

A request gives one grammar or a lexer and a parser grammar. They are known by the names that they
declare, which are different, and are compiled in the order in which they are given.
-/

namespace Request

/-- A grammar is called by the name that it declares. -/
theorem declaredName?_of_nameGrammar
    {text : String}
    {named : NamedGrammar}
    (isNamed : nameGrammar text = .ok named) :
    named.text = text ∧ Header.declaredName? named.text = some named.name := by
  unfold nameGrammar at isNamed
  split at isNamed
  · rename_i declared
    cases isNamed
    exact ⟨rfl, declared⟩
  · cases isNamed

/-- What the grammars of a request resolve to. -/
inductive Resolves
    (request : Request) :
    Layout → List NamedGrammar → Prop where
  | unified
      {text : String}
      {named : NamedGrammar}
      (isGrammar : request.grammar = some text)
      (isNamed : nameGrammar text = .ok named) :
      Resolves request (.unified named.name) [named]
  | split
      {lexerText parserText : String}
      {lexer parser : NamedGrammar}
      (isLexer : request.lexer = some lexerText)
      (isParser : request.parser = some parserText)
      (lexerNamed : nameGrammar lexerText = .ok lexer)
      (parserNamed : nameGrammar parserText = .ok parser)
      (differ : lexer.name ≠ parser.name) :
      Resolves request (.split lexer.name parser.name) [lexer, parser]

/-- Grammars are resolved as they are given: as one, or as two with different names. -/
theorem resolves_of_resolve
    {request : Request}
    {layout : Layout}
    {grammars : List NamedGrammar}
    (resolved : request.resolve = .ok (layout, grammars)) :
    request.Resolves layout grammars := by
  unfold resolve at resolved
  split at resolved
  · rename_i isGrammar _ _
    obtain ⟨named, isNamed, resolved⟩ := ok_of_bind resolved
    cases resolved
    exact .unified isGrammar isNamed
  · cases resolved
  · rename_i isLexer isParser
    obtain ⟨lexer, lexerNamed, resolved⟩ := ok_of_bind resolved
    obtain ⟨parser, parserNamed, resolved⟩ := ok_of_bind resolved
    split at resolved
    · cases resolved
    · rename_i differ
      cases resolved
      exact .split isLexer isParser lexerNamed parserNamed differ
  · cases resolved
  · cases resolved

namespace Resolves

variable
  {request : Request}
  {layout : Layout}
  {grammars : List NamedGrammar}

/-- The grammars are compiled under their names, in order. -/
theorem compilationOrder_eq (resolves : request.Resolves layout grammars) :
    layout.compilationOrder = grammars.map NamedGrammar.name := by
  cases resolves <;> rfl

/-- Every grammar declares its name. -/
theorem declaredName?_eq
    (resolves : request.Resolves layout grammars)
    {grammar : NamedGrammar}
    (isGrammar : grammar ∈ grammars) :
    Header.declaredName? grammar.text = some grammar.name := by
  cases resolves with
  | unified _ isNamed =>
      obtain rfl := List.mem_singleton.mp isGrammar
      exact (declaredName?_of_nameGrammar isNamed).2
  | split _ _ lexerNamed parserNamed =>
      simp only [List.mem_cons, List.not_mem_nil, or_false] at isGrammar
      rcases isGrammar with rfl | rfl
      · exact (declaredName?_of_nameGrammar lexerNamed).2
      · exact (declaredName?_of_nameGrammar parserNamed).2

end Resolves

end Request

end GrammarService
