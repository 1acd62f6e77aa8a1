import GrammarService.Artifact.Load
import GrammarService.Proofs.Storage.Folders
import Mathlib.Data.List.TakeWhile

namespace GrammarService

/-!
# What loading compiled grammars comes to

A grammar is registered under an identity that no other grammar has, and so it is what the identity
resolves to. Loading therefore gives the grammars that were read from the folder, whatever else is
registered. Their rules have names, since a section of recognizer data ends at an empty line.
-/

namespace Registry

variable {registry : Registry} {identity other : Identity} {grammar : LoadedGrammar}

/-- What registering a grammar can come to. -/
inductive Registers
    (registry : Registry)
    (grammar : LoadedGrammar) :
    Option Identity × Registry → Prop where
  | exhausted
      (noneFree : ∀ suffix ∈ registry.suffixes, registry.isFree suffix = false) :
      Registers registry grammar (none, { registry with suffixes := [] })
  | fresh
      {identity : Identity}
      (isFresh : registry.find? identity = none)
      (suffixes : List String) :
      Registers registry grammar
        (some identity, ⟨(identity, grammar) :: registry.entries, suffixes⟩)

/-- Registering uses a free suffix, unless all suffixes are taken. -/
theorem registers_register
    (registry : Registry)
    (grammar : LoadedGrammar) :
    registry.Registers grammar (registry.register grammar) := by
  unfold register
  cases left : registry.suffixes.dropWhile fun suffix => !registry.isFree suffix with
  | nil =>
      refine .exhausted fun suffix isSuffix => ?_
      simp only [List.dropWhile_eq_nil_iff, Bool.not_eq_true'] at left
      exact left suffix isSuffix
  | cons suffix suffixes =>
      have isFree : (!registry.isFree suffix) = false := by
        have head := List.head?_dropWhile_not (fun suffix => !registry.isFree suffix)
          registry.suffixes
        rw [left] at head
        simpa using head
      exact .fresh (by simpa [Registry.isFree, contains] using isFree) suffixes

/-- A grammar that was just registered is found under its identity. -/
@[simp] theorem find?_registered
    (entries : List (Identity × LoadedGrammar))
    (suffixes : List String) :
    (Registry.mk ((identity, grammar) :: entries) suffixes).find? identity = some grammar := by
  simp [find?]

/-- Registering a grammar changes nothing under other identities. -/
theorem find?_registered_of_ne
    (isOther : other ≠ identity)
    (suffixes : List String) :
    (Registry.mk ((identity, grammar) :: registry.entries) suffixes).find? other =
      registry.find? other := by
  have differs : (other == identity) = false := by simpa using isOther
  simp [find?, List.lookup_cons, differs]

/-- Releasing an identity takes away the grammar under it and no other. -/
theorem find?_release
    (registry : Registry)
    (identity other : Identity) :
    (registry.release identity).find? other =
      if other = identity then none else registry.find? other := by
  refine (lookup_filter_key (fun known => decide (known ≠ identity)) ..).trans ?_
  by_cases isReleased : other = identity <;> simp [find?, isReleased]

/-- Resolving an identity gives the grammar under it if it is asked for by its name. -/
theorem resolve_name
    (found : registry.find? identity = some grammar) :
    registry.resolve identity grammar.name = some grammar := by
  simp [resolve, found]

end Registry

namespace RecognizerData

/-- Every name that a section of rule names lists is some text. -/
theorem ruleNames_readSections
    {current : Option Section}
    {sections : Sections}
    {lines : List (List Char)}
    (named : ∀ name ∈ sections.data.ruleNames, name ≠ "") :
    ∀ name ∈ (readSections current sections lines).data.ruleNames, name ≠ "" := by
  fun_induction readSections current sections lines with
  | case1 => exact named
  | case2 sections line rest kind isEmpty inductionHypothesis => exact inductionHypothesis named
  | case3 sections line rest kind filled inductionHypothesis =>
      refine inductionHypothesis ?_
      cases kind <;> try exact named
      simp only [addEntry, List.mem_append, List.mem_singleton]
      rintro name (isOld | rfl)
      · exact named name isOld
      · simpa using filled
  | case4 sections rest => exact named
  | case5 sections line rest notNetwork kind isHeader inductionHypothesis =>
      exact inductionHypothesis named
  | case6 sections line rest notNetwork notHeader inductionHypothesis =>
      exact inductionHypothesis named

/-- Every rule of recognizer data that was read has a name. -/
theorem ruleNames_ne_empty_of_read
    {text : String}
    {data : RecognizerData}
    (isRead : read text = .ok data) :
    ∀ name ∈ data.ruleNames, name ≠ "" := by
  unfold read at isRead
  dsimp only at isRead
  have named :
      ∀ name ∈
        (readSections none ⟨empty, false, none⟩
          ((Text.lines text.toList).map Text.trimEnd)).data.ruleNames,
        name ≠ "" :=
    ruleNames_readSections (by simp [empty])
  split at isRead
  · cases isRead
  · split at isRead
    · cases isRead
    · obtain ⟨values, -, isRead⟩ := ok_of_bind isRead
      cases isRead
      exact named

end RecognizerData

namespace Artifacts

variable {parser : ParserGrammar} {lexer : LexerGrammar} {registry : Registry}

/-- Grammars that are registered are taken for use as they are. -/
theorem run_resolvePair
    {parserIdentity lexerIdentity : Identity}
    (parserFound : registry.find? parserIdentity = some (.parser parser))
    (lexerFound : registry.find? lexerIdentity = some (.lexer lexer)) :
    ((resolvePair parserIdentity lexerIdentity parser.name lexer.name).run Registry.perform
        registry).1 =
      .ok ⟨lexer, parser, [parserIdentity, lexerIdentity]⟩ := by
  have resolvesParser : registry.resolve parserIdentity parser.name = some (.parser parser) :=
    Registry.resolve_name parserFound
  have resolvesLexer : registry.resolve lexerIdentity lexer.name = some (.lexer lexer) :=
    Registry.resolve_name lexerFound
  simp only [resolvePair, Dialogue.run, Registry.perform, resolvesParser, resolvesLexer]

/-- A lexer is registered and taken for use with a parser that is registered already, unless the
identities run out. -/
theorem run_enrolLexer
    {parserIdentity : Identity}
    (parserFound : registry.find? parserIdentity = some (.parser parser))
    (lexer : LexerGrammar) :
    ((enrolLexer parserIdentity parser.name lexer).run Registry.perform registry).1 =
        .error .noIdentity ∨
      ∃ identities,
        ((enrolLexer parserIdentity parser.name lexer).run Registry.perform registry).1 =
          .ok ⟨lexer, parser, identities⟩ := by
  have registers := registry.registers_register (.lexer lexer)
  simp only [enrolLexer, Dialogue.run, Registry.perform]
  generalize registry.register (.lexer lexer) = registered at registers ⊢
  cases registers with
  | exhausted => exact .inl rfl
  | @fresh lexerIdentity lexerFresh suffixes =>
      have isOther : parserIdentity ≠ lexerIdentity := by
        rintro rfl
        cases lexerFresh.symm.trans parserFound
      exact .inr ⟨_, run_resolvePair
        ((Registry.find?_registered_of_ne isOther suffixes).trans parserFound)
        (Registry.find?_registered registry.entries suffixes)⟩

/-- Grammars are registered and taken for use as they are, unless the identities run out. -/
theorem run_enrol
    (parser : ParserGrammar)
    (lexer : LexerGrammar)
    (registry : Registry) :
    ((enrol parser lexer).run Registry.perform registry).1 = .error .noIdentity ∨
      ∃ identities,
        ((enrol parser lexer).run Registry.perform registry).1 =
          .ok ⟨lexer, parser, identities⟩ := by
  have registers := registry.registers_register (.parser parser)
  simp only [enrol, Dialogue.run, Registry.perform]
  generalize registry.register (.parser parser) = registered at registers ⊢
  cases registers with
  | exhausted => exact .inl rfl
  | @fresh parserIdentity parserFresh suffixes =>
      exact run_enrolLexer (Registry.find?_registered registry.entries suffixes) lexer

/-- A parser grammar has the rule names of the data that it is made from. -/
theorem ruleNames_of_ofData
    {name : String}
    {data : RecognizerData}
    (made : ParserGrammar.ofData name data = .ok parser) :
    parser.ruleNames = data.ruleNames.toArray := by
  obtain ⟨network, -, made⟩ := ok_of_bind made
  split at made <;> cases made
  rfl

/-- Every rule of a compiled unit that was read has a name. -/
theorem ruleNames_ne_empty_of_readUnit
    {files : FileStore}
    {folder : Path}
    {name : String}
    {data : RecognizerData}
    (isRead : readUnit files folder name = .ok data) :
    ∀ name ∈ data.ruleNames, name ≠ "" := by
  obtain ⟨bytes, -, isRead⟩ := ok_of_bind isRead
  split at isRead
  · cases isRead
  · exact RecognizerData.ruleNames_ne_empty_of_read (ok_of_mapError isRead)

/-- Every rule of a parser that was read from a folder has a name. -/
theorem ruleNames_ne_empty_of_readGrammars
    {files : FileStore}
    {folder : Path}
    {layout : Layout}
    (areRead : readGrammars files folder layout = .ok (parser, lexer)) :
    ∀ name ∈ parser.ruleNames, name ≠ "" := by
  obtain ⟨parserData, parserRead, areRead⟩ := ok_of_bind areRead
  obtain ⟨lexerData, -, areRead⟩ := ok_of_bind areRead
  obtain ⟨madeParser, isParser, areRead⟩ := ok_of_bind areRead
  obtain ⟨madeLexer, -, areRead⟩ := ok_of_bind areRead
  cases areRead
  rw [ruleNames_of_ofData (ok_of_mapError isParser)]
  simpa using ruleNames_ne_empty_of_readUnit parserRead

/-- Nothing is resolved when a unit is read. -/
theorem ne_notResolved_of_readUnit
    {files : FileStore}
    {folder : Path}
    {name grammar : String}
    {error : ArtifactError}
    (failed : readUnit files folder name = .error error) :
    error ≠ .notResolved grammar := by
  rcases error_of_bind failed with failed | ⟨bytes, -, failed⟩
  · obtain ⟨cause, rfl⟩ := exists_of_mapError failed
    simp
  · split at failed
    · cases failed
      simp
    · obtain ⟨cause, rfl⟩ := exists_of_mapError failed
      simp

/-- Nothing is resolved when grammars are read. -/
theorem ne_notResolved_of_readGrammars
    {files : FileStore}
    {folder : Path}
    {layout : Layout}
    {grammar : String}
    {error : ArtifactError}
    (failed : readGrammars files folder layout = .error error) :
    error ≠ .notResolved grammar := by
  rcases error_of_bind failed with failed | ⟨parserData, -, failed⟩
  · exact ne_notResolved_of_readUnit failed
  rcases error_of_bind failed with failed | ⟨lexerData, -, failed⟩
  · exact ne_notResolved_of_readUnit failed
  rcases error_of_bind failed with failed | ⟨parser, -, failed⟩
  · obtain ⟨cause, rfl⟩ := exists_of_mapError failed
    simp
  rcases error_of_bind failed with failed | ⟨lexer, -, failed⟩
  · obtain ⟨cause, rfl⟩ := exists_of_mapError failed
    simp
  · cases failed

/-- Every rule of a parser that was loaded has a name. -/
theorem ruleNames_ne_empty_of_load
    {files : FileStore}
    {folder : Path}
    {layout : Layout}
    {artifacts : Artifacts}
    (loads : ((load files folder layout).run Registry.perform registry).1 = .ok artifacts) :
    ∀ name ∈ artifacts.parser.ruleNames, name ≠ "" := by
  unfold load at loads
  split at loads
  · cases loads
  · rename_i readParser readLexer areRead
    rcases run_enrol readParser readLexer registry with exhausted | ⟨identities, enrolled⟩
    · cases exhausted.symm.trans loads
    · cases enrolled.symm.trans loads
      exact ruleNames_ne_empty_of_readGrammars areRead

end Artifacts

end GrammarService
