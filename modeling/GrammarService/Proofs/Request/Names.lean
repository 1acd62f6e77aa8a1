import GrammarService.Proofs.Request.Resolution
import GrammarService.Storage.Session

namespace GrammarService

/-!
# The files of a grammar

A grammar declares its name in letters, digits and underscores. A file that is called by such a name
lies directly in the folder that it is looked up from, whatever ending the name is given.
-/

namespace Header

/-- A name begins with a letter or an underscore and may go on with digits as well. -/
def IsName (name : List Char) : Prop :=
  ∃ first rest,
    name = first :: rest ∧
      beginsName first = true ∧ ∀ character ∈ rest, continuesName character = true

/-- What is read as a name is one. -/
theorem isName_of_nameAt?
    {line name : List Char}
    (found : nameAt? line = some name) :
    IsName name := by
  obtain ⟨behind, -, found⟩ := Option.bind_eq_some_iff.mp found
  unfold nameBehindKeyword? at found
  split at found
  · cases found
  · split at found
    · unfold name? at found
      split at found
      · cases found
      · split at found
        · rename_i begins
          cases found
          exact ⟨_, _, rfl, begins, fun _ isLater => List.mem_takeWhile_imp isLater⟩
        · cases found
    · cases found

/-- What a grammar declares as its name is one. -/
theorem isName_of_declaredName?
    {text name : String}
    (declared : declaredName? text = some name) :
    IsName name.toList := by
  obtain ⟨found, isFound, rfl⟩ := Option.map_eq_some_iff.mp declared
  rw [String.toList_ofList]
  generalize text.toList = left at isFound
  generalize true = atLineStart at isFound
  induction left generalizing atLineStart with
  | nil => cases isFound
  | cons character rest inductionHypothesis =>
      rw [firstName?, Option.or_eq_some_iff] at isFound
      rcases isFound with here | ⟨-, later⟩
      · split at here
        · exact isName_of_nameAt? here
        · cases here
      · exact inductionHypothesis _ later

end Header

namespace FileStore

/-- What is called by a name and a plain ending lies where it is looked up from. -/
theorem isPlain_append
    {name ending : String}
    (isName : Header.IsName name.toList)
    (noSlash : '/' ∉ ending.toList)
    (noNul : '\x00' ∉ ending.toList) :
    IsPlain (name ++ ending) := by
  obtain ⟨first, rest, isText, begins, continues⟩ := isName
  have ne_of_ne {other : String} (differs : other.toList.head? ≠ some first) :
      name ++ ending ≠ other := by
    rintro rfl
    simp [isText] at differs
  have notBeginning {character : Char} (isOther : Header.beginsName character = false) :
      character ≠ first := by
    rintro rfl
    cases begins.symm.trans isOther
  have notContinuing {character : Char} (isOther : Header.continuesName character = false) :
      character ∉ rest :=
    fun present => by cases (continues _ present).symm.trans isOther
  refine ⟨ne_of_ne (by simp), ne_of_ne ?_, ne_of_ne ?_, ?_, ?_⟩
  · simpa using notBeginning (by decide)
  · simpa using notBeginning (by decide)
  · simpa [isText, noSlash] using ⟨notBeginning (by decide), notContinuing (by decide)⟩
  · simpa [isText, noNul] using ⟨notBeginning (by decide), notContinuing (by decide)⟩

end FileStore

namespace Request.Resolves

variable
  {request : Request}
  {layout : Layout}
  {grammars : List NamedGrammar}

/-- The grammars of a request are called by names. -/
theorem isName
    (resolves : request.Resolves layout grammars)
    {grammar : NamedGrammar}
    (isGrammar : grammar ∈ grammars) :
    Header.IsName grammar.name.toList :=
  Header.isName_of_declaredName? (resolves.declaredName?_eq isGrammar)

/-- The grammars of a request are called by different names. -/
theorem names_nodup (resolves : request.Resolves layout grammars) :
    (grammars.map NamedGrammar.name).Nodup := by
  cases resolves with
  | unified => simp
  | split _ _ _ _ differ => simpa using differ

/-- The units of a request's grammars are in files that lie in the folder they are looked up from. -/
theorem isPlain_unitFiles (resolves : request.Resolves layout grammars) :
    FileStore.IsPlain (Artifacts.unitFile layout.parserUnit) ∧
      FileStore.IsPlain (Artifacts.unitFile layout.lexerUnit) := by
  have areNames (grammar : NamedGrammar) (isGrammar : grammar ∈ grammars) :
      Header.IsName grammar.name.toList :=
    resolves.isName isGrammar
  cases resolves with
  | @unified text named =>
      have isName := areNames named List.mem_cons_self
      refine ⟨FileStore.isPlain_append isName (by decide) (by decide), ?_⟩
      rw [Artifacts.unitFile, Layout.lexerUnit, String.append_assoc]
      exact FileStore.isPlain_append isName (by decide) (by decide)
  | @split lexerText parserText lexer parser =>
      exact ⟨FileStore.isPlain_append (areNames parser (by simp)) (by decide) (by decide),
        FileStore.isPlain_append (areNames lexer (by simp)) (by decide) (by decide)⟩

end Request.Resolves

end GrammarService
