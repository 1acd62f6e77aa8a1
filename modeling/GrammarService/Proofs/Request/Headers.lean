import GrammarService.Proofs.Request.Names

namespace GrammarService

/-!
# Where a grammar declares its name

A header reads `grammar` and a name, behind `lexer` or `parser` or neither, with white space in
front of every word, which is needed in front of the name only. The name goes on for as long as its
characters do. A grammar has the name that the first line start with a header declares, and none if
no line start has one; so a line on which no name follows does not hide the headers behind it.
-/

namespace Header

/-- The letters `A` to `Z` and `a` to `z`. -/
def IsLetter (character : Char) : Prop :=
  ('A' ≤ character ∧ character ≤ 'Z') ∨ ('a' ≤ character ∧ character ≤ 'z')

/-- Letters, the digits `0` to `9` and the underscore. -/
def IsWordCharacter (character : Char) : Prop :=
  IsLetter character ∨ ('0' ≤ character ∧ character ≤ '9') ∨ character = '_'

theorem isAlpha_iff {character : Char} :
    character.isAlpha = true ↔ IsLetter character := by
  have isAlpha :
      character.isAlpha =
        (decide ('A' ≤ character ∧ character ≤ 'Z') ||
          (decide ('a' ≤ character) && decide (character ≤ 'z'))) :=
    rfl
  rw [isAlpha, Bool.or_eq_true, Bool.and_eq_true, decide_eq_true_eq, decide_eq_true_eq,
    decide_eq_true_eq, IsLetter]

theorem beginsName_iff {character : Char} :
    beginsName character = true ↔ IsLetter character ∨ character = '_' := by
  simp [beginsName, isAlpha_iff]

theorem continuesName_iff {character : Char} :
    continuesName character = true ↔ IsWordCharacter character := by
  simp [continuesName, IsWordCharacter, Char.isAlphanum, isAlpha_iff, Char.isDigit, Char.le_def,
    or_assoc]

/-- White space, and nothing else. -/
def IsBlank (text : List Char) : Prop :=
  ∀ character ∈ text, isWhiteSpace character = true

/-- A text begins with a header that declares a name. -/
inductive Declares : (line name : List Char) → Prop where
  | header
      {indent qualifier gap space name rest : List Char}
      {first : Char}
      (indentIsBlank : IsBlank indent)
      (isQualifier : qualifier = [] ∨ qualifier = "lexer".toList ∨ qualifier = "parser".toList)
      (gapIsBlank : IsBlank gap)
      (separates : space ≠ [])
      (spaceIsBlank : IsBlank space)
      (begins : IsLetter first ∨ first = '_')
      (continues : ∀ character ∈ name, IsWordCharacter character)
      (ends : ∀ character, rest.head? = some character → ¬ IsWordCharacter character) :
      Declares
        (indent ++ (qualifier ++ (gap ++ ("grammar".toList ++ (space ++ (first :: name ++ rest))))))
        (first :: name)

section Words

variable {word text rest : List Char}

/-- White space in front of a text is trimmed with what the text starts with. -/
theorem trimStart_append_of_isBlank
    (isBlank : IsBlank word)
    (text : List Char) :
    Text.trimStart (word ++ text) = Text.trimStart text :=
  List.dropWhile_append_of_pos isBlank

/-- A text that starts with a mark is not trimmed. -/
theorem trimStart_cons_of_marked
    {first : Char}
    (isMarked : isWhiteSpace first = false)
    (text : List Char) :
    Text.trimStart (first :: text) = first :: text := by
  simp [Text.trimStart, isMarked]

/-- What is trimmed is white space. -/
theorem exists_blank_append_trimStart (text : List Char) :
    ∃ blank, IsBlank blank ∧ text = blank ++ Text.trimStart text :=
  ⟨text.takeWhile isWhiteSpace, fun _ isTaken => List.mem_takeWhile_imp isTaken,
    List.takeWhile_append_dropWhile.symm⟩

/-- What is behind a word is what is left of a text that begins with it. -/
theorem behindWord?_eq_some_iff {word : String} :
    behindWord? word text = some rest ↔ text = word.toList ++ rest := by
  unfold behindWord?
  rw [Option.ite_none_right_eq_some, Option.some.injEq, List.isPrefixOf_iff_prefix]
  constructor
  · rintro ⟨⟨behind, rfl⟩, rfl⟩
    rw [List.drop_left]
  · rintro rfl
    exact ⟨List.prefix_append .., List.drop_left⟩

/-- A text does not begin with a word that begins with something else. -/
theorem behindWord?_eq_none
    {word : String}
    (differs : word.toList.head? ≠ text.head?)
    (notEmpty : word.toList ≠ []) :
    behindWord? word text = none := by
  rw [Option.eq_none_iff_forall_ne_some]
  intro rest isBehind
  rw [behindWord?_eq_some_iff.mp isBehind, List.head?_append_of_ne_nil _ notEmpty] at differs
  exact differs rfl

/-- In front of what is behind a qualifier is one, or nothing. -/
theorem exists_qualifier_append (text : List Char) :
    ∃ qualifier,
      (qualifier = [] ∨ qualifier = "lexer".toList ∨ qualifier = "parser".toList) ∧
        text = qualifier ++ behindQualifier text := by
  unfold behindQualifier
  cases isLexer : behindWord? "lexer" text with
  | some rest => exact ⟨_, .inr (.inl rfl), behindWord?_eq_some_iff.mp isLexer⟩
  | none =>
      cases isParser : behindWord? "parser" text with
      | some rest => exact ⟨_, .inr (.inr rfl), behindWord?_eq_some_iff.mp isParser⟩
      | none => exact ⟨[], .inl rfl, rfl⟩

/-- The keyword is behind a qualifier, or nothing, and white space. -/
theorem trimStart_behindQualifier
    {qualifier gap : List Char}
    (isQualifier : qualifier = [] ∨ qualifier = "lexer".toList ∨ qualifier = "parser".toList)
    (gapIsBlank : IsBlank gap)
    (rest : List Char) :
    Text.trimStart (behindQualifier (Text.trimStart (qualifier ++ (gap ++ 'g' :: rest)))) =
      'g' :: rest := by
  have keywordTrims : Text.trimStart ('g' :: rest) = 'g' :: rest :=
    trimStart_cons_of_marked (by decide) rest
  rcases isQualifier with rfl | rfl | rfl
  · have isPlain : behindQualifier ('g' :: rest) = 'g' :: rest := by
      unfold behindQualifier
      rw [behindWord?_eq_none (by simp) (by simp), behindWord?_eq_none (by simp) (by simp)]
      rfl
    rw [List.nil_append, trimStart_append_of_isBlank gapIsBlank, keywordTrims, isPlain,
      keywordTrims]
  · have marked :
        Text.trimStart ("lexer".toList ++ (gap ++ 'g' :: rest)) =
          "lexer".toList ++ (gap ++ 'g' :: rest) :=
      trimStart_cons_of_marked (by decide) _
    rw [marked, behindQualifier, behindWord?_eq_some_iff.mpr rfl]
    exact (trimStart_append_of_isBlank gapIsBlank _).trans keywordTrims
  · have marked :
        Text.trimStart ("parser".toList ++ (gap ++ 'g' :: rest)) =
          "parser".toList ++ (gap ++ 'g' :: rest) :=
      trimStart_cons_of_marked (by decide) _
    rw [marked, behindQualifier, behindWord?_eq_none (by simp) (by simp),
      behindWord?_eq_some_iff.mpr rfl]
    exact (trimStart_append_of_isBlank gapIsBlank _).trans keywordTrims

end Words

/-- The characters that names begin with are no white space. -/
theorem isWhiteSpace_of_begins
    {first : Char}
    (begins : IsLetter first ∨ first = '_') :
    isWhiteSpace first = false := by
  have inRange : 65 ≤ first.toNat ∧ first.toNat ≤ 122 := by
    rcases begins with (⟨low, high⟩ | ⟨low, high⟩) | rfl
    · exact ⟨low, le_trans (b := 90) high (by decide)⟩
    · exact ⟨le_trans (b := 97) (by decide) low, high⟩
    · decide
  simp [isWhiteSpace, whiteSpaceRanges]
  omega

/-- A name is read to where it ends. -/
theorem name?_eq_some_iff {text found : List Char} :
    name? text = some found ↔
      ∃ first name rest,
        found = first :: name ∧ text = first :: name ++ rest ∧
          (IsLetter first ∨ first = '_') ∧ (∀ character ∈ name, IsWordCharacter character) ∧
            ∀ character, rest.head? = some character → ¬ IsWordCharacter character := by
  cases text with
  | nil => simp [name?]
  | cons first text =>
      simp only [name?, Option.ite_none_right_eq_some, Option.some.injEq, beginsName_iff]
      constructor
      · rintro ⟨begins, rfl⟩
        refine ⟨first, text.takeWhile continuesName, text.dropWhile continuesName, rfl, ?_, begins,
          ?_, ?_⟩
        · rw [List.cons_append, List.takeWhile_append_dropWhile]
        · exact fun character isTaken => continuesName_iff.mp (List.mem_takeWhile_imp isTaken)
        · intro character isNext
          have stops := List.head?_dropWhile_not continuesName text
          rw [isNext] at stops
          rw [← continuesName_iff]
          simpa using stops
      · rintro ⟨_, name, rest, rfl, isText, begins, continues, ends⟩
        rw [List.cons_append] at isText
        cases isText
        refine ⟨begins, ?_⟩
        rw [List.takeWhile_append_of_pos fun character member =>
          continuesName_iff.mpr (continues character member)]
        cases rest with
        | nil => simp
        | cons next rest =>
            have stops : ¬ continuesName next = true :=
              fun goesOn => ends next rfl (continuesName_iff.mp goesOn)
            simp [stops]

/-- The name that is read at the start of a line is the one that a header declares there. -/
theorem nameAt?_eq_some_iff {line name : List Char} :
    nameAt? line = some name ↔ Declares line name := by
  constructor
  · intro found
    obtain ⟨behind, isKeyword, found⟩ := Option.bind_eq_some_iff.mp found
    obtain ⟨indent, indentIsBlank, isLine⟩ := exists_blank_append_trimStart line
    obtain ⟨qualifier, isQualifier, isTrimmed⟩ := exists_qualifier_append (Text.trimStart line)
    obtain ⟨gap, gapIsBlank, isBehind⟩ :=
      exists_blank_append_trimStart (behindQualifier (Text.trimStart line))
    rw [behindWord?_eq_some_iff.mp isKeyword] at isBehind
    cases behind with
    | nil => cases found
    | cons blank behind =>
        obtain ⟨space, spaceIsBlank, isSpaced⟩ := exists_blank_append_trimStart behind
        simp only [nameBehindKeyword?, Option.ite_none_right_eq_some] at found
        obtain ⟨isBlank, found⟩ := found
        obtain ⟨first, name, rest, rfl, isName, begins, continues, ends⟩ :=
          name?_eq_some_iff.mp found
        have declares :=
          Declares.header indentIsBlank isQualifier gapIsBlank (List.cons_ne_nil blank space)
            (List.forall_mem_cons.mpr ⟨isBlank, spaceIsBlank⟩) begins continues ends
        rwa [List.cons_append, ← isName, ← isSpaced, ← isBehind, ← isTrimmed, ← isLine] at declares
  · rintro ⟨indentIsBlank, isQualifier, gapIsBlank, separates, spaceIsBlank, begins, continues,
      ends⟩
    rename_i indent qualifier gap space name rest first
    obtain ⟨blank, space, rfl⟩ := List.exists_cons_of_ne_nil separates
    obtain ⟨isBlank, spaceIsBlank⟩ := List.forall_mem_cons.mp spaceIsBlank
    have isName :
        name? (Text.trimStart (space ++ (first :: name ++ rest))) = some (first :: name) := by
      rw [trimStart_append_of_isBlank spaceIsBlank, List.cons_append,
        trimStart_cons_of_marked (isWhiteSpace_of_begins begins), ← List.cons_append]
      exact name?_eq_some_iff.mpr ⟨first, name, rest, rfl, rfl, begins, continues, ends⟩
    have isKeyword :=
      trimStart_behindQualifier isQualifier gapIsBlank
        ("rammar".toList ++ (blank :: space ++ (first :: name ++ rest)))
    rw [nameAt?, trimStart_append_of_isBlank indentIsBlank]
    refine Option.bind_eq_some_iff.mpr
      ⟨_, behindWord?_eq_some_iff.mpr isKeyword, ?_⟩
    rw [List.cons_append, nameBehindKeyword?, if_pos isBlank]
    exact isName

/-- Whether a line starts behind a part of a text, where one starts behind the empty part or not. -/
def startsLine
    (atLineStart : Bool)
    (before : List Char) :
    Bool :=
  (before.getLast?.map (· == '\n')).getD atLineStart

theorem startsLine_cons
    (atLineStart : Bool)
    (first : Char)
    (before : List Char) :
    startsLine atLineStart (first :: before) = startsLine (first == '\n') before := by
  unfold startsLine
  rw [List.getLast?_cons]
  cases before.getLast? <;> rfl

/-- The first name of a text is declared at a line start, and none is at the line starts before. -/
theorem firstName?_eq_some_iff
    {atLineStart : Bool}
    {text name : List Char} :
    firstName? atLineStart text = some name ↔
      ∃ before line,
        text = before ++ line ∧ startsLine atLineStart before = true ∧
          nameAt? line = some name ∧
            ∀ earlier later,
              text = earlier ++ later →
                startsLine atLineStart earlier = true →
                  earlier.length < before.length → nameAt? later = none := by
  induction text generalizing atLineStart with
  | nil =>
      have noName : nameAt? [] = none := by decide
      constructor
      · rintro ⟨⟩
      · rintro ⟨before, line, isText, -, found, -⟩
        rw [(List.append_eq_nil_iff.mp isText.symm).2, noName] at found
        cases found
  | cons first text inductionHypothesis =>
      have here :
          (if atLineStart then nameAt? (first :: text) else none) = some name ↔
            startsLine atLineStart [] = true ∧ nameAt? (first :: text) = some name := by
        simp [startsLine]
      rw [firstName?, Option.or_eq_some_iff, here, inductionHypothesis]
      constructor
      · rintro (⟨starts, found⟩ | ⟨notHere, before, line, rfl, starts, found, isFirst⟩)
        · exact ⟨[], first :: text, rfl, starts, found, fun _ _ _ _ shorter => by cases shorter⟩
        · refine ⟨first :: before, line, rfl, ?_, found, ?_⟩
          · rw [startsLine_cons]
            exact starts
          · intro earlier later isText earlierStarts shorter
            cases earlier with
            | nil =>
                rw [List.nil_append] at isText
                rw [← isText]
                simpa [show atLineStart = true from earlierStarts] using notHere
            | cons head earlier =>
                obtain ⟨rfl, isRest⟩ := List.cons.inj isText
                rw [startsLine_cons] at earlierStarts
                exact isFirst earlier later isRest earlierStarts (Nat.lt_of_succ_lt_succ shorter)
      · rintro ⟨before, line, isText, starts, found, isFirst⟩
        cases before with
        | nil =>
            rw [List.nil_append] at isText
            exact .inl ⟨starts, isText ▸ found⟩
        | cons head before =>
            obtain ⟨rfl, rfl⟩ := List.cons.inj isText
            refine .inr ⟨?_, before, line, rfl, ?_, found, ?_⟩
            · split
              · exact isFirst [] _ rfl ‹_› (Nat.succ_pos _)
              · rfl
            · rw [startsLine_cons] at starts
              exact starts
            · intro earlier later isRest earlierStarts shorter
              refine isFirst (first :: earlier) later (congrArg (first :: ·) isRest) ?_
                (Nat.succ_lt_succ shorter)
              rw [startsLine_cons]
              exact earlierStarts

/-- The offsets at which lines of a text start: behind nothing, or behind a line feed. -/
def IsLineStart (before : List Char) : Prop :=
  before = [] ∨ ∃ earlier, before = earlier ++ ['\n']

theorem startsLine_iff {before : List Char} :
    startsLine true before = true ↔ IsLineStart before := by
  unfold startsLine IsLineStart
  cases before using List.reverseRecOn with
  | nil => simp
  | append_singleton earlier last =>
      rw [List.getLast?_concat]
      constructor
      · intro isFeed
        exact .inr ⟨earlier, by simpa using isFeed⟩
      · rintro (isNil | ⟨before, same⟩)
        · simp at isNil
        · simpa using (List.append_inj' same rfl).2

/-- A text with a header at a line start has a first one. -/
theorem isSome_firstName?
    {atLineStart : Bool}
    {text before line name : List Char}
    (isText : text = before ++ line)
    (starts : startsLine atLineStart before = true)
    (found : nameAt? line = some name) :
    (firstName? atLineStart text).isSome = true := by
  -- Either no line start before has a name, or one does that is nearer to the beginning.
  induction isLength : before.length using Nat.strongRecOn generalizing before line name with
  | ind length inductionHypothesis =>
      by_cases isFirst :
        ∀ earlier later,
          text = earlier ++ later →
            startsLine atLineStart earlier = true →
              earlier.length < before.length → nameAt? later = none
      · exact Option.isSome_of_eq_some
          (firstName?_eq_some_iff.mpr ⟨before, line, isText, starts, found, isFirst⟩)
      · push Not at isFirst
        obtain ⟨earlier, later, isSplit, earlierStarts, shorter, isNamed⟩ := isFirst
        obtain ⟨other, foundEarlier⟩ := Option.ne_none_iff_exists'.mp isNamed
        exact inductionHypothesis earlier.length (isLength ▸ shorter) isSplit earlierStarts
          foundEarlier rfl

/--
A grammar has a name exactly where a header declares one at some line start, and its name is the
one declared at the first such line start. Names are made of letters, digits and underscores, and
so are names of files as they are.
-/
theorem declaredName?_eq_first_declared (text : String) :
    ((declaredName? text).isSome = true ↔
      ∃ before line name,
        text.toList = before ++ line ∧ IsLineStart before ∧ Declares line name) ∧
    ∀ name : String,
      (declaredName? text = some name ↔
        ∃ before line,
          text.toList = before ++ line ∧ IsLineStart before ∧ Declares line name.toList ∧
            ∀ earlier later,
              text.toList = earlier ++ later →
                IsLineStart earlier →
                  earlier.length < before.length → ∀ other, ¬ Declares later other) ∧
      (declaredName? text = some name →
        (∀ character ∈ name.toList, IsWordCharacter character) ∧ FileStore.IsPlain name) := by
  have noneDeclared {line : List Char} :
      nameAt? line = none ↔ ∀ other, ¬ Declares line other := by
    simp only [Option.eq_none_iff_forall_ne_some, ne_eq, nameAt?_eq_some_iff]
  refine ⟨?_, fun name => ⟨?_, fun declared => ⟨?_, ?_⟩⟩⟩
  · rw [declaredName?, Option.isSome_map]
    constructor
    · intro isThere
      obtain ⟨name, isFirst⟩ := Option.isSome_iff_exists.mp isThere
      obtain ⟨before, line, isText, starts, found, -⟩ := firstName?_eq_some_iff.mp isFirst
      exact ⟨before, line, name, isText, startsLine_iff.mp starts, nameAt?_eq_some_iff.mp found⟩
    · rintro ⟨before, line, name, isText, starts, declares⟩
      exact isSome_firstName? isText (startsLine_iff.mpr starts) (nameAt?_eq_some_iff.mpr declares)
  · have isName :
        declaredName? text = some name ↔ firstName? true text.toList = some name.toList := by
      rw [declaredName?, Option.map_eq_some_iff]
      constructor
      · rintro ⟨found, isFirst, rfl⟩
        rwa [String.toList_ofList]
      · exact fun isFirst => ⟨_, isFirst, String.ofList_toList⟩
    rw [isName, firstName?_eq_some_iff]
    simp only [startsLine_iff, nameAt?_eq_some_iff, noneDeclared]
  · obtain ⟨first, rest, isName, begins, continues⟩ := isName_of_declaredName? declared
    rw [isName, List.forall_mem_cons]
    refine ⟨?_, fun character member => continuesName_iff.mp (continues character member)⟩
    exact (beginsName_iff.mp begins).imp_right .inr
  · have isPlain :=
      @FileStore.isPlain_append name "" (isName_of_declaredName? declared) (by decide) (by decide)
    rwa [String.append_empty] at isPlain

/-- Where no name follows, the next header counts; and a header may span lines. -/
example : declaredName? "grammar 9x;\n\n  lexer\ngrammar\tTokens_2;" = some "Tokens_2" := by
  decide +kernel

end Header

end GrammarService
