import GrammarService.Proofs.Text.Lines
import GrammarService.RecognizerData

namespace GrammarService

/-!
# Recognizer data is read as it was written

The text of recognizer data is made of lines: headers, entries, and blank lines between sections.
Whatever could be taken for a line of another kind must not stand in the place of an entry. That
leaves out few names, and none that can be read.
-/

namespace RecognizerData

/-- A name that stands in a line of its own and is not taken for the end of its section. -/
structure IsPrintableName (name : String) : Prop where
  nonempty : name ≠ ""
  oneLine : '\n' ∉ name.toList
  trimmed : Text.IsTrimmed name.toList

/-- Data of which all names can be printed and no named token type passes for one without a name. -/
structure IsPrintable (data : RecognizerData) : Prop where
  literalNames :
    ∀ name, some name ∈ data.literalNames → IsPrintableName name ∧ name ≠ absentName
  symbolicNames :
    ∀ name, some name ∈ data.symbolicNames → IsPrintableName name ∧ name ≠ absentName
  ruleNames : ∀ name ∈ data.ruleNames, IsPrintableName name
  channelNames : ∀ name ∈ data.channelNames, IsPrintableName name
  modeNames : ∀ name ∈ data.modeNames, IsPrintableName name

/-- All integers of the encoded network are signed integers of 32 bits. -/
def FitsInt32 (data : RecognizerData) : Prop :=
  ∀ value ∈ data.encodedNetwork, Text.minInt32 ≤ value ∧ value ≤ Text.maxInt32

/-! Writing -/

/-- The lines of a section. -/
def sectionLines
    (kind : Section)
    (entries : List String) :
    List (List Char) :=
  kind.header.toList :: (entries.map String.toList ++ [[]])

/-- The lines of a section that is left out when it is empty. -/
def optionalLines
    (kind : Section)
    (entries : List String) :
    List (List Char) :=
  if entries.isEmpty then [] else sectionLines kind entries

/-- The line of an encoded network. -/
def networkLine (values : List Int) : List Char :=
  '[' :: ((String.intercalate ", " (values.map fun value => toString value)).toList ++ [']'])

/-- All lines of recognizer data. -/
def printedLines (data : RecognizerData) : List (List Char) :=
  sectionLines .literalNames (data.literalNames.map renderName) ++
    (sectionLines .symbolicNames (data.symbolicNames.map renderName) ++
      (sectionLines .ruleNames data.ruleNames ++
        (optionalLines .channelNames data.channelNames ++
          (optionalLines .modeNames data.modeNames ++
            [networkHeader.toList, networkLine data.encodedNetwork]))))

/-- A section is written as its lines. -/
theorem toList_renderSection
    (kind : Section)
    (entries : List String) :
    (renderSection kind entries).toList = Text.joinLines (sectionLines kind entries) := by
  have entriesWritten :
      (String.join (entries.map (· ++ "\n"))).toList =
        Text.joinLines (entries.map String.toList) := by
    rw [String.toList_join, Text.joinLines, List.flatMap_map, List.flatMap_map]
    simp
  simp [renderSection, sectionLines, Text.joinLines, String.join_cons, entriesWritten]

/-- Recognizer data is written as its lines. -/
theorem toList_render (data : RecognizerData) :
    data.render.toList = Text.joinLines data.printedLines := by
  have optional :
      ∀ (kind : Section) (entries : List String),
        (if entries.isEmpty then "" else renderSection kind entries).toList =
          Text.joinLines (optionalLines kind entries) := by
    intro kind entries
    unfold optionalLines
    split
    · rfl
    · exact toList_renderSection kind entries
  have joined :
      ∀ first second : List (List Char),
        Text.joinLines (first ++ second) = Text.joinLines first ++ Text.joinLines second :=
    fun _ _ => List.flatMap_append
  simp only [render, String.toList_append, toList_renderSection, optional, printedLines, joined,
    List.append_assoc]
  simp [Text.joinLines, networkLine]

/-! Reading what was written -/

/-- Add entries to the end of their section. -/
def addEntries
    (data : RecognizerData)
    (kind : Section)
    (entries : List (List Char)) :
    RecognizerData :=
  match kind with
  | .literalNames =>
      { data with literalNames := data.literalNames ++ entries.map optionalName }
  | .symbolicNames =>
      { data with symbolicNames := data.symbolicNames ++ entries.map optionalName }
  | .ruleNames => { data with ruleNames := data.ruleNames ++ entries.map String.ofList }
  | .channelNames => { data with channelNames := data.channelNames ++ entries.map String.ofList }
  | .modeNames => { data with modeNames := data.modeNames ++ entries.map String.ofList }

theorem addEntries_nil
    (data : RecognizerData)
    (kind : Section) :
    data.addEntries kind [] = data := by
  cases kind <;> simp [addEntries]

theorem addEntries_cons
    (data : RecognizerData)
    (kind : Section)
    (entry : List Char)
    (entries : List (List Char)) :
    data.addEntries kind (entry :: entries) = (data.addEntry kind entry).addEntries kind entries := by
  cases kind <;> simp [addEntries, addEntry]

/-- Entries are read up to the blank line behind them. -/
theorem readSections_entries
    (kind : Section)
    (sections : Sections)
    {entries : List (List Char)}
    (nonempty : ∀ entry ∈ entries, entry ≠ [])
    (rest : List (List Char)) :
    readSections (some kind) sections (entries ++ [] :: rest) =
      readSections none { sections with data := sections.data.addEntries kind entries } rest := by
  induction entries generalizing sections with
  | nil =>
      rw [addEntries_nil]
      rfl
  | cons entry entries inductionHypothesis =>
      have notBlank : entry.isEmpty = false := by
        simpa using nonempty entry List.mem_cons_self
      rw [List.cons_append, readSections, notBlank, addEntries_cons]
      exact inductionHypothesis _ fun entry member =>
        nonempty entry (List.mem_cons_of_mem _ member)

/-- A section is read from its header through the blank line behind it. -/
theorem readSections_section
    (kind : Section)
    (sections : Sections)
    {entries : List String}
    (nonempty : ∀ entry ∈ entries, entry ≠ "")
    (rest : List (List Char)) :
    readSections none sections (sectionLines kind entries ++ rest) =
      readSections none
        { sections with
          data := sections.data.addEntries kind (entries.map String.toList)
          sawRuleNames := sections.sawRuleNames || kind = .ruleNames }
        rest := by
  have notNetwork : kind.header.toList ≠ networkHeader.toList := by
    cases kind <;> decide
  have isHeader : Section.ofHeader? kind.header.toList = some kind := by
    cases kind <;> decide
  have notBlank : ∀ entry ∈ entries.map String.toList, entry ≠ [] := by
    intro entry member
    obtain ⟨name, isName, rfl⟩ := List.mem_map.mp member
    simpa using nonempty name isName
  rw [sectionLines, List.cons_append, List.append_assoc, readSections, if_neg notNetwork,
    isHeader]
  exact readSections_entries kind _ notBlank rest

/-- A section that is left out when it is empty is read as one that is there. -/
theorem readSections_optional
    (kind : Section)
    (notRules : kind ≠ .ruleNames)
    (sections : Sections)
    {entries : List String}
    (nonempty : ∀ entry ∈ entries, entry ≠ "")
    (rest : List (List Char)) :
    readSections none sections (optionalLines kind entries ++ rest) =
      readSections none
        { sections with data := sections.data.addEntries kind (entries.map String.toList) }
        rest := by
  unfold optionalLines
  split
  · rename_i isEmpty
    rw [List.isEmpty_iff.mp isEmpty, List.map_nil, addEntries_nil, List.nil_append]
  · rw [readSections_section kind sections nonempty]
    simp [notRules]

/-- The names that were given to token types are read from their entries. -/
theorem map_optionalName_renderName
    {names : List (Option String)}
    (named : ∀ name, some name ∈ names → name ≠ absentName) :
    ((names.map renderName).map String.toList).map optionalName = names := by
  induction names with
  | nil => rfl
  | cons name names inductionHypothesis =>
      have isFirst : optionalName (renderName name).toList = name := by
        cases name with
        | none => simp [optionalName, renderName]
        | some name => simpa [optionalName, renderName] using named name List.mem_cons_self
      simp only [List.map_cons, isFirst]
      rw [inductionHypothesis fun name member => named name (List.mem_cons_of_mem _ member)]

/-- Names are read from their entries. -/
theorem map_ofList_toList (names : List String) :
    (names.map String.toList).map String.ofList = names := by
  simp [Function.comp_def]

/-- No entry for a token type is a blank line if all names can be printed. -/
theorem renderName_ne_empty
    {names : List (Option String)}
    (printable : ∀ name, some name ∈ names → IsPrintableName name ∧ name ≠ absentName) :
    ∀ entry ∈ names.map renderName, entry ≠ "" := by
  intro entry member
  obtain ⟨name, isName, rfl⟩ := List.mem_map.mp member
  cases name with
  | none => decide
  | some name => exact (printable name isName).1.nonempty

namespace IsPrintable

variable {data : RecognizerData} (printable : data.IsPrintable)

include printable

/-- The sections of printable data are read as they were written. -/
theorem readSections_printedLines :
    readSections none ⟨empty, false, none⟩ data.printedLines =
      ⟨{ data with encodedNetwork := [] }, true, some (networkLine data.encodedNetwork)⟩ := by
  have atNetwork :
      ∀ (sections : Sections) (line : List Char),
        readSections none sections [networkHeader.toList, line] =
          { sections with network := some line } :=
    fun _ _ => rfl
  rw [printedLines, readSections_section _ _ (renderName_ne_empty printable.literalNames),
    readSections_section _ _ (renderName_ne_empty printable.symbolicNames),
    readSections_section _ _ fun name member => (printable.ruleNames name member).nonempty,
    readSections_optional _ (by decide) _
      fun name member => (printable.channelNames name member).nonempty,
    readSections_optional _ (by decide) _
      fun name member => (printable.modeNames name member).nonempty,
    atNetwork]
  simp only [addEntries, empty, List.nil_append, map_ofList_toList,
    map_optionalName_renderName fun name member => (printable.literalNames name member).2,
    map_optionalName_renderName fun name member => (printable.symbolicNames name member).2]
  rfl

end IsPrintable

/-- A line of its own that reading does not change. -/
structure IsLine (line : List Char) : Prop where
  oneLine : '\n' ∉ line
  trimmed : Text.IsTrimmed line

theorem IsPrintableName.isLine
    {name : String}
    (printable : IsPrintableName name) :
    IsLine name.toList :=
  ⟨printable.oneLine, printable.trimmed⟩

/-- An entry for a token type is a line of its own. -/
theorem isLine_renderName
    {names : List (Option String)}
    (printable : ∀ name, some name ∈ names → IsPrintableName name ∧ name ≠ absentName) :
    ∀ entry ∈ names.map renderName, IsLine entry.toList := by
  intro entry member
  obtain ⟨name, isName, rfl⟩ := List.mem_map.mp member
  cases name with
  | none => exact ⟨by decide, by rintro last ⟨⟩; decide⟩
  | some name => exact (printable name isName).1.isLine

/-- The lines of a section are lines of their own if its entries are. -/
theorem isLine_of_mem_sectionLines
    {kind : Section}
    {entries : List String}
    (areLines : ∀ entry ∈ entries, IsLine entry.toList) :
    ∀ line ∈ sectionLines kind entries, IsLine line := by
  intro line member
  rw [sectionLines, List.mem_cons, List.mem_append, List.mem_singleton] at member
  rcases member with rfl | member | rfl
  · refine ⟨by cases kind <;> decide, ?_⟩
    intro last isLast
    cases kind <;> cases isLast <;> decide
  · obtain ⟨entry, isEntry, rfl⟩ := List.mem_map.mp member
    exact areLines entry isEntry
  · exact ⟨List.not_mem_nil, by rintro last ⟨⟩⟩

theorem isLine_of_mem_optionalLines
    {kind : Section}
    {entries : List String}
    (areLines : ∀ entry ∈ entries, IsLine entry.toList) :
    ∀ line ∈ optionalLines kind entries, IsLine line := by
  intro line member
  unfold optionalLines at member
  split at member
  · cases member
  · exact isLine_of_mem_sectionLines areLines line member

/-- The integers of an encoded network, with commas and blanks between them. -/
def listing (values : List Int) : List Char :=
  [',', ' '].intercalate (values.map fun value => (toString value).toList)

theorem networkLine_eq (values : List Int) :
    networkLine values = '[' :: (listing values ++ [']']) := by
  simp [networkLine, listing, Function.comp_def]

/-- The blanks between integers can be told to be a part of what follows a comma. -/
theorem listing_cons
    (value : Int)
    (values : List Int) :
    listing (value :: values) =
      [','].intercalate
        ((toString value).toList :: values.map fun value => ' ' :: (toString value).toList) := by
  have shift :
      ∀ (text : List Char) (texts : List (List Char)),
        [','].intercalate ((' ' :: text) :: texts) = ' ' :: [','].intercalate (text :: texts) := by
    intro text texts
    cases texts with
    | nil => simp
    | cons next texts => simp only [List.intercalate_cons_cons, List.cons_append]
  induction values generalizing value with
  | nil => simp [listing]
  | cons next values inductionHypothesis =>
      have rest := inductionHypothesis next
      simp only [listing, List.map_cons, List.intercalate_cons_cons, shift] at rest ⊢
      rw [rest]
      simp

/-- A list of integers is made of digits, signs and what stands between integers. -/
theorem mem_listing
    {values : List Int}
    {character : Char}
    (member : character ∈ listing values) :
    character = ',' ∨ character = ' ' ∨ character = '-' ∨ character.isDigit = true := by
  induction values with
  | nil => cases member
  | cons value values inductionHypothesis =>
      have ofValue :
          ∀ {value : Int},
            character ∈ (toString value).toList →
              character = ',' ∨ character = ' ' ∨ character = '-' ∨ character.isDigit = true :=
        fun member => .inr (.inr (Text.mem_toString member))
      cases values with
      | nil => exact ofValue (by simpa [listing] using member)
      | cons next values =>
          simp only [listing, List.map_cons, List.intercalate_cons_cons, List.mem_append,
            List.mem_cons, List.not_mem_nil, or_false] at member
          rcases member with (member | isComma | isBlank) | member
          · exact ofValue member
          · exact .inl isComma
          · exact .inr (.inl isBlank)
          · exact inductionHypothesis member

/-- A character that cannot stand in a list of integers does not. -/
theorem not_mem_listing
    {character : Char}
    (foreign :
      (character = ',' ∨ character = ' ' ∨ character = '-' ∨ character.isDigit = true) → False)
    (values : List Int) :
    character ∉ listing values :=
  fun member => foreign (mem_listing member)

/-- The line of an encoded network is a line of its own. -/
theorem isLine_networkLine (values : List Int) : IsLine (networkLine values) := by
  rw [networkLine_eq]
  refine ⟨?_, ?_⟩
  · simp only [List.mem_cons, List.mem_append, List.not_mem_nil, or_false, not_or]
    exact ⟨by decide, not_mem_listing (by decide) values, by decide⟩
  · intro last isLast
    rw [← List.cons_append, List.getLast?_append_of_ne_nil _ (by simp)] at isLast
    cases isLast
    decide

/-- A printed integer has no blanks around it. -/
theorem trim_toString (value : Int) :
    Text.trim (toString value).toList = (toString value).toList := by
  refine Text.trim_of_isTrimmed ?_ ?_
  · exact fun first isFirst =>
      Text.isWhiteSpace_of_mem_toString (List.mem_of_mem_head? isFirst)
  · exact fun last isLast =>
      Text.isWhiteSpace_of_mem_toString (List.mem_of_getLast? isLast)

/-- The blank in front of a printed integer is trimmed away. -/
theorem trim_blank_toString (value : Int) :
    Text.trim (' ' :: (toString value).toList) = (toString value).toList := by
  have isBlank : isWhiteSpace ' ' = true := by decide
  exact (congrArg Text.trimEnd (List.dropWhile_cons_of_pos isBlank)).trans (trim_toString value)

/-- The integers of a listing stand between its commas, all but the first behind a blank. -/
theorem splitOn_listing
    (value : Int)
    (values : List Int) :
    (listing (value :: values)).splitOn ',' =
      (toString value).toList :: values.map fun value => ' ' :: (toString value).toList := by
  have noComma : ∀ value : Int, ',' ∉ (toString value).toList := by
    intro value member
    have isForeign := Text.mem_toString member
    revert isForeign
    decide
  rw [listing_cons]
  refine List.splitOn_intercalate ',' ?_ (List.cons_ne_nil _ _)
  intro text member
  rcases List.mem_cons.mp member with rfl | member
  · exact noComma value
  · obtain ⟨other, _, rfl⟩ := List.mem_map.mp member
    simpa using noComma other

/-- The entries of the line of an encoded network are its integers. -/
theorem networkValues_networkLine (values : List Int) :
    networkValues (networkLine values) = values.map fun value => (toString value).toList := by
  have noOpening := @not_mem_listing '[' (by decide) values
  have noClosing := @not_mem_listing ']' (by decide) values
  have isTrimmed : Text.trim (networkLine values) = networkLine values := by
    refine Text.trim_of_isTrimmed ?_ (isLine_networkLine values).trimmed
    rintro first ⟨⟩
    decide
  have opened :
      (networkLine values).dropWhile (fun character => character = '[') =
        listing values ++ [']'] := by
    rw [networkLine_eq]
    cases isListing : listing values with
    | nil => decide
    | cons first rest =>
        have notOpening : first ≠ '[' := by
          rintro rfl
          exact noOpening (isListing ▸ List.mem_cons_self)
        simp [notOpening]
  have closed :
      Text.dropEndWhile (fun character => character = ']') (listing values ++ [']']) =
        listing values := by
    refine (List.rdropWhile_concat_pos _ _ _ (by decide)).trans ?_
    refine List.rdropWhile_eq_self_iff.mpr fun nonempty isClosing => ?_
    exact noClosing (of_decide_eq_true isClosing ▸ List.getLast_mem nonempty)
  rw [networkValues, isTrimmed, opened, closed]
  cases values with
  | nil => decide
  | cons value values =>
      have others :
          (values.map fun value => ' ' :: (toString value).toList).map Text.trim =
            values.map fun value => (toString value).toList := by
        rw [List.map_map]
        exact List.map_congr_left fun value _ => trim_blank_toString value
      rw [splitOn_listing, List.map_cons, trim_toString, others]
      refine List.filter_eq_self.mpr fun text member => ?_
      obtain ⟨other, _, rfl⟩ :=
        List.mem_map.mp
          (show text ∈ (value :: values).map fun value => (toString value).toList from member)
      simpa using Text.toList_toString_ne_nil other

/-- The line of an encoded network is read as the integers that were written. -/
theorem readNetwork_networkLine
    {values : List Int}
    (fits : ∀ value ∈ values, Text.minInt32 ≤ value ∧ value ≤ Text.maxInt32) :
    readNetwork (networkLine values) = .ok values := by
  rw [readNetwork, networkValues_networkLine]
  induction values with
  | nil => rfl
  | cons value values inductionHypothesis =>
      obtain ⟨least, most⟩ := fits value List.mem_cons_self
      rw [List.map_cons, List.mapM_cons, Text.int32?_toString least most,
        inductionHypothesis fun value member => fits value (List.mem_cons_of_mem _ member)]
      rfl

/-- Printable data is read as it was written. -/
theorem IsPrintable.reads_render
    {data : RecognizerData}
    (printable : data.IsPrintable)
    (fits : data.FitsInt32) :
    read data.render = .ok data := by
  have areLines : ∀ line ∈ data.printedLines, IsLine line := by
    intro line member
    simp only [printedLines, List.mem_append, List.mem_cons, List.not_mem_nil, or_false] at member
    rcases member with member | member | member | member | member | rfl | rfl
    · exact isLine_of_mem_sectionLines (isLine_renderName printable.literalNames) line member
    · exact isLine_of_mem_sectionLines (isLine_renderName printable.symbolicNames) line member
    · exact isLine_of_mem_sectionLines
        (fun name isName => (printable.ruleNames name isName).isLine) line member
    · exact isLine_of_mem_optionalLines
        (fun name isName => (printable.channelNames name isName).isLine) line member
    · exact isLine_of_mem_optionalLines
        (fun name isName => (printable.modeNames name isName).isLine) line member
    · exact ⟨by decide, by rintro last ⟨⟩; decide⟩
    · exact isLine_networkLine data.encodedNetwork
  have sameLines : (Text.lines data.render.toList).map Text.trimEnd = data.printedLines := by
    rw [toList_render,
      Text.lines_joinLines (fun line member => (areLines line member).oneLine)
        fun line member => (areLines line member).trimmed]
    refine (List.map_congr_left fun line member => ?_).trans (List.map_id _)
    exact Text.trimEnd_of_isTrimmed (areLines line member).trimmed
  rw [read, sameLines, printable.readSections_printedLines]
  dsimp only
  rw [readNetwork_networkLine fits]
  rfl

/-! What was read can be printed. -/

/-- An entry is printable if it is a line of its own that is not blank. -/
theorem isPrintableName_ofList
    {line : List Char}
    (isLine : IsLine line)
    (notBlank : line ≠ []) :
    IsPrintableName (String.ofList line) where
  nonempty := by simpa using notBlank
  oneLine := by simpa using isLine.oneLine
  trimmed := by simpa using isLine.trimmed

/-- Data stays printable when an entry is added that is not blank. -/
theorem IsPrintable.addEntry
    {data : RecognizerData}
    (printable : data.IsPrintable)
    (kind : Section)
    {line : List Char}
    (isLine : IsLine line)
    (notBlank : line ≠ []) :
    (data.addEntry kind line).IsPrintable := by
  have isName := isPrintableName_ofList isLine notBlank
  have named :
      ∀ name, some name = optionalName line → IsPrintableName name ∧ name ≠ absentName := by
    intro name isOptional
    unfold optionalName at isOptional
    split at isOptional
    · cases isOptional
    · rename_i isPresent
      cases isOptional
      exact ⟨isName, isPresent⟩
  cases kind
  · refine { printable with literalNames := fun name member => ?_ }
    rcases List.mem_append.mp member with isOld | isNew
    · exact printable.literalNames name isOld
    · exact named name (List.mem_singleton.mp isNew)
  · refine { printable with symbolicNames := fun name member => ?_ }
    rcases List.mem_append.mp member with isOld | isNew
    · exact printable.symbolicNames name isOld
    · exact named name (List.mem_singleton.mp isNew)
  · refine { printable with ruleNames := fun name member => ?_ }
    rcases List.mem_append.mp member with isOld | isNew
    · exact printable.ruleNames name isOld
    · exact List.mem_singleton.mp isNew ▸ isName
  · refine { printable with channelNames := fun name member => ?_ }
    rcases List.mem_append.mp member with isOld | isNew
    · exact printable.channelNames name isOld
    · exact List.mem_singleton.mp isNew ▸ isName
  · refine { printable with modeNames := fun name member => ?_ }
    rcases List.mem_append.mp member with isOld | isNew
    · exact printable.modeNames name isOld
    · exact List.mem_singleton.mp isNew ▸ isName

/-- Whatever lines are read, the names in them are printable. -/
theorem isPrintable_readSections
    (current : Option Section)
    {sections : Sections}
    (printable : sections.data.IsPrintable)
    {lines : List (List Char)}
    (areLines : ∀ line ∈ lines, IsLine line) :
    (readSections current sections lines).data.IsPrintable := by
  induction lines generalizing current sections with
  | nil => exact printable
  | cons line rest inductionHypothesis =>
      have restLines : ∀ line ∈ rest, IsLine line :=
        fun line member => areLines line (List.mem_cons_of_mem _ member)
      cases current with
      | some kind =>
          rw [readSections]
          split
          · exact inductionHypothesis none printable restLines
          · rename_i notBlank
            refine inductionHypothesis (some kind) ?_ restLines
            exact printable.addEntry kind (areLines line List.mem_cons_self) (by simpa using notBlank)
      | none =>
          rw [readSections]
          split
          · exact printable
          · split
            · exact inductionHypothesis _ printable restLines
            · exact inductionHypothesis none printable restLines

/-- Where every item gives a value, each value is given by one of the items. -/
theorem exists_of_mem_mapM
    {give : α → Except ε β}
    {items : List α}
    {values : List β}
    (succeeds : items.mapM give = .ok values)
    {value : β}
    (member : value ∈ values) :
    ∃ item ∈ items, give item = .ok value := by
  induction items generalizing values with
  | nil =>
      cases succeeds
      cases member
  | cons item items inductionHypothesis =>
      rw [List.mapM_cons] at succeeds
      cases isFirst : give item with
      | error fault =>
          rw [isFirst] at succeeds
          cases succeeds
      | ok first =>
          cases isRest : items.mapM give with
          | error fault =>
              rw [isFirst, isRest] at succeeds
              cases succeeds
          | ok others =>
              rw [isFirst, isRest] at succeeds
              cases succeeds
              rcases List.mem_cons.mp member with rfl | member
              · exact ⟨item, List.mem_cons_self, isFirst⟩
              · obtain ⟨other, isOther, gives⟩ := inductionHypothesis isRest member
                exact ⟨other, List.mem_cons_of_mem item isOther, gives⟩

/-- The integers that are read from a line fit 32 bits. -/
theorem fits_of_readNetwork
    {line : List Char}
    {values : List Int}
    (isRead : readNetwork line = .ok values) :
    ∀ value ∈ values, Text.minInt32 ≤ value ∧ value ≤ Text.maxInt32 := by
  intro value member
  obtain ⟨entry, _, gives⟩ := exists_of_mem_mapM isRead member
  split at gives
  · rename_i isValue
    cases gives
    exact Text.fits_of_int32? isValue
  · cases gives

/-- Whatever can be read can be printed. -/
theorem isPrintable_of_read
    {text : String}
    {data : RecognizerData}
    (isRead : read text = .ok data) :
    data.IsPrintable ∧ data.FitsInt32 := by
  have areLines : ∀ line ∈ (Text.lines text.toList).map Text.trimEnd, IsLine line := by
    intro line member
    obtain ⟨untrimmed, isLine, rfl⟩ := List.mem_map.mp member
    exact ⟨fun member => Text.not_mem_of_mem_lines isLine (Text.mem_of_mem_trimEnd member),
      Text.isTrimmed_trimEnd untrimmed⟩
  have nothing : IsPrintable (⟨empty, false, none⟩ : Sections).data := by
    constructor <;> simp [empty]
  have printable := isPrintable_readSections none nothing areLines
  rw [read] at isRead
  generalize readSections none ⟨empty, false, none⟩ ((Text.lines text.toList).map Text.trimEnd) =
    sections at isRead printable
  obtain ⟨names, sawRuleNames, network⟩ := sections
  cases sawRuleNames with
  | false => cases isRead
  | true =>
      cases network with
      | none => cases isRead
      | some line =>
          cases isNetwork : readNetwork line with
          | error fault =>
              simp only [isNetwork] at isRead
              cases isRead
          | ok values =>
              simp only [isNetwork] at isRead
              cases isRead
              exact ⟨{ printable with }, fits_of_readNetwork isNetwork⟩

/--
Data with names that can be printed is read as it was written, and whatever can be read has such
names. So what was read once is the same when it is written and read again.
-/
theorem read_render :
    (∀ data : RecognizerData,
      data.IsPrintable → data.FitsInt32 → read data.render = .ok data) ∧
      ∀ (text : String) (data : RecognizerData),
        read text = .ok data →
          data.IsPrintable ∧ data.FitsInt32 ∧ read data.render = .ok data := by
  refine ⟨fun data printable fits => printable.reads_render fits, fun text data isRead => ?_⟩
  obtain ⟨printable, fits⟩ := isPrintable_of_read isRead
  exact ⟨printable, fits, printable.reads_render fits⟩

namespace Spaced

/-- Recognizer data with an unknown section, a section in two parts, and line ends of two kinds. -/
def text : String :=
  "notes:\n\nrule names:\r\ns \n\ntoken literal names:\nnull\n'+'\n\n" ++
    "rule names:\nt\n\natn:\n[4,1 , -2,]"

/-- What it says. -/
def data : RecognizerData :=
  { empty with
    literalNames := [none, some "'+'"]
    ruleNames := ["s", "t"]
    encodedNetwork := [4, 1, -2] }

/-- The data is read, can be printed, and is read again as it was. -/
theorem read_printed :
    read text = .ok data ∧ data.IsPrintable ∧ data.FitsInt32 ∧ read data.render = .ok data :=
  have isRead : read text = .ok data := by decide
  have again := read_render.2 text data isRead
  ⟨isRead, again.1, again.2.1, read_render.1 data again.1 again.2.1⟩

end Spaced

end RecognizerData

end GrammarService
