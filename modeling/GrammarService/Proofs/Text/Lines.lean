import Mathlib
import GrammarService.Text.Decimal
import GrammarService.Text.Lines
import GrammarService.Text.WhiteSpace

namespace GrammarService

/-!
# Texts of lines and numbers

Lines that are written one below the other are read as the lines they are, and so are numbers in
decimal notation. For lines this needs that no line breaks inside, and none ends with a carriage
return, which would be taken for a part of the line's end.
-/

namespace Text

/-- A text that does not end with white space. -/
def IsTrimmed (text : List Char) : Prop :=
  ∀ last, text.getLast? = some last → isWhiteSpace last = false

/-- Texts written as lines, each with its end. -/
def joinLines (texts : List (List Char)) : List Char :=
  texts.flatMap fun text => text ++ ['\n']

/-- A character that is no part of a line's end belongs to the first line. -/
theorem lines_cons
    {character : Char}
    {rest : List Char}
    (noBreak : character ≠ '\n')
    (noReturn : character = '\r' → rest.head? ≠ some '\n') :
    lines (character :: rest) = extendLine character (lines rest) := by
  rw [lines]
  · exact noBreak
  · rintro following isReturn rfl
    exact noReturn isReturn rfl

/-- The first line ends at the first line feed, unless a carriage return stands before it. -/
theorem lines_append
    {line : List Char}
    (oneLine : '\n' ∉ line)
    (noReturn : line.getLast? ≠ some '\r')
    (rest : List Char) :
    lines (line ++ '\n' :: rest) = line :: lines rest := by
  induction line with
  | nil => rfl
  | cons character line inductionHypothesis =>
      obtain ⟨noBreak, oneLine⟩ := not_or.mp (mt List.mem_cons.mpr oneLine)
      rw [List.cons_append, lines_cons (Ne.symm noBreak) ?_]
      · cases line with
        | nil => rfl
        | cons next following =>
            rw [List.getLast?_cons_cons] at noReturn
            rw [inductionHypothesis oneLine noReturn, extendLine]
      · intro isReturn
        cases line with
        | nil => simp [isReturn] at noReturn
        | cons next following =>
            intro isBreak
            simp only [List.cons_append, List.head?_cons, Option.some.injEq] at isBreak
            exact oneLine (isBreak ▸ List.mem_cons_self)

/-- A trimmed text does not end with a carriage return. -/
theorem IsTrimmed.noReturn
    {text : List Char}
    (trimmed : IsTrimmed text) :
    text.getLast? ≠ some '\r' := by
  intro isReturn
  have noSpace := trimmed '\r' isReturn
  revert noSpace
  decide

/-- Trimmed lines that were written are read as they were. -/
theorem lines_joinLines
    {texts : List (List Char)}
    (oneLine : ∀ text ∈ texts, '\n' ∉ text)
    (trimmed : ∀ text ∈ texts, IsTrimmed text) :
    lines (joinLines texts) = texts := by
  induction texts with
  | nil => rfl
  | cons text texts inductionHypothesis =>
      have first := lines_append (oneLine text List.mem_cons_self)
        (trimmed text List.mem_cons_self).noReturn (joinLines texts)
      have isJoined : joinLines (text :: texts) = text ++ '\n' :: joinLines texts := by
        simp [joinLines]
      rw [isJoined, first,
        inductionHypothesis (fun text member => oneLine text (List.mem_cons_of_mem _ member))
          (fun text member => trimmed text (List.mem_cons_of_mem _ member))]

/-- No line has a line feed in it. -/
theorem not_mem_of_mem_lines
    {text line : List Char}
    (isLine : line ∈ lines text) :
    '\n' ∉ line := by
  induction text using lines.induct generalizing line with
  | case1 => cases isLine
  | case2 rest inductionHypothesis =>
      rcases List.mem_cons.mp isLine with rfl | isLater
      · exact List.not_mem_nil
      · exact inductionHypothesis isLater
  | case3 rest inductionHypothesis =>
      rcases List.mem_cons.mp isLine with rfl | isLater
      · exact List.not_mem_nil
      · exact inductionHypothesis isLater
  | case4 character rest noBreak noReturn inductionHypothesis =>
      rw [lines] at isLine
      · cases following : lines rest with
        | nil =>
            rw [following, extendLine, List.mem_singleton] at isLine
            rw [isLine]
            simpa using Ne.symm noBreak
        | cons first others =>
            rw [following] at inductionHypothesis isLine
            rcases List.mem_cons.mp isLine with rfl | isLater
            · simp only [List.mem_cons, not_or]
              exact ⟨Ne.symm noBreak, inductionHypothesis List.mem_cons_self⟩
            · exact inductionHypothesis (List.mem_cons_of_mem first isLater)
      · exact noBreak
      · exact noReturn

/-- A trimmed text stays as it is when it is trimmed. -/
theorem trimEnd_of_isTrimmed
    {text : List Char}
    (trimmed : IsTrimmed text) :
    trimEnd text = text := by
  refine List.rdropWhile_eq_self_iff.mpr fun nonempty => ?_
  rw [trimmed _ (List.getLast?_eq_some_getLast nonempty)]
  exact Bool.false_ne_true

/-- Trimming trims. -/
theorem isTrimmed_trimEnd (text : List Char) : IsTrimmed (trimEnd text) := by
  intro last isLast
  have nonempty : trimEnd text ≠ [] := by
    intro isEmpty
    rw [isEmpty] at isLast
    cases isLast
  rw [List.getLast?_eq_some_getLast nonempty, Option.some.injEq] at isLast
  have notDropped := List.rdropWhile_last_not isWhiteSpace text nonempty
  rw [← isLast]
  exact Bool.eq_false_iff.mpr notDropped

/-- Trimming adds no characters. -/
theorem mem_of_mem_trimEnd
    {text : List Char}
    {character : Char}
    (member : character ∈ trimEnd text) :
    character ∈ text :=
  (List.rdropWhile_prefix isWhiteSpace text).subset member

/-- A text that neither starts nor ends with white space stays as it is when it is trimmed. -/
theorem trim_of_isTrimmed
    {text : List Char}
    (starts : ∀ first, text.head? = some first → isWhiteSpace first = false)
    (trimmed : IsTrimmed text) :
    trim text = text := by
  have noStart : trimStart text = text := by
    cases text with
    | nil => rfl
    | cons first rest => simp [trimStart, starts first rfl]
  rw [trim, noStart, trimEnd_of_isTrimmed trimmed]

/-- The digits of a number have its value. -/
theorem digitsValue?_toDigits (value : Nat) :
    digitsValue? (Nat.toDigits 10 value) = some value := by
  have isDigits : (Nat.toDigits 10 value).all Char.isDigit = true := by
    rw [List.all_eq_true]
    exact fun digit member => Nat.isDigit_of_mem_toDigits (by omega) (by omega) member
  have nonempty : (Nat.toDigits 10 value).isEmpty = false := by
    simp [Nat.toDigits_ne_nil]
  have sameValue := @Nat.ofDigitChars_toDigits 10 value (by omega) (by omega)
  rw [digitsValue?, nonempty, isDigits]
  simpa [Nat.ofDigitChars] using sameValue

/-- Digits without a sign are read as they are. -/
theorem integer?_of_digits
    {digits : List Char}
    {value : Nat}
    (isValue : digitsValue? digits = some value) :
    integer? digits = some (value : Int) := by
  have allDigits : digits.all Char.isDigit = true := by
    unfold digitsValue? at isValue
    split at isValue
    · rename_i isRun
      exact (Bool.and_eq_true_iff.mp isRun).2
    · cases isValue
  unfold integer?
  split
  · simp at allDigits
  · simp at allDigits
  · rw [isValue]
    rfl

/-- A number is written with a sign, if it is negative, and digits. -/
theorem toList_toString (value : Int) :
    (toString value).toList =
      if value < 0 then
        '-' :: Nat.toDigits 10 value.natAbs
      else
        Nat.toDigits 10 value.natAbs := by
  cases value with
  | ofNat value => simp [Int.repr, Nat.toList_repr]
  | negSucc value => simp [Int.repr, Nat.toList_repr, Int.negSucc_lt_zero]

/-- A number that fits 32 bits is read as it was written. -/
theorem int32?_toString
    {value : Int}
    (least : minInt32 ≤ value)
    (most : value ≤ maxInt32) :
    int32? (toString value).toList = some value := by
  have isRead : integer? (toString value).toList = some value := by
    rw [toList_toString]
    split
    · rename_i negative
      simp only [integer?, digitsValue?_toDigits, Option.bind_eq_bind, Option.bind_some,
        Option.pure_def, Option.map_some, Option.some.injEq]
      omega
    · rename_i notNegative
      rw [integer?_of_digits (digitsValue?_toDigits _), Option.some.injEq]
      omega
  rw [int32?, isRead, Option.filter_some, if_pos (by simp [least, most])]

/-- What is read as an integer of 32 bits fits 32 bits. -/
theorem fits_of_int32?
    {text : List Char}
    {value : Int}
    (isValue : int32? text = some value) :
    minInt32 ≤ value ∧ value ≤ maxInt32 := by
  simpa using (Option.filter_eq_some_iff.mp isValue).2

/-- A number is written with a minus and digits only. -/
theorem mem_toString
    {value : Int}
    {character : Char}
    (member : character ∈ (toString value).toList) :
    character = '-' ∨ character.isDigit = true := by
  have isDigit :
      character ∈ Nat.toDigits 10 value.natAbs → character.isDigit = true :=
    fun member => Nat.isDigit_of_mem_toDigits (by omega) (by omega) member
  rw [toList_toString] at member
  split at member
  · rcases List.mem_cons.mp member with isSign | isLater
    · exact .inl isSign
    · exact .inr (isDigit isLater)
  · exact .inr (isDigit member)

/-- No character of a number is white space. -/
theorem isWhiteSpace_of_mem_toString
    {value : Int}
    {character : Char}
    (member : character ∈ (toString value).toList) :
    isWhiteSpace character = false := by
  rcases mem_toString member with rfl | isDigit
  · decide
  · simp only [Char.isDigit, Bool.and_eq_true, decide_eq_true_eq] at isDigit
    obtain ⟨least, most⟩ := isDigit
    have least' : 48 ≤ character.toNat := least
    have most' : character.toNat ≤ 57 := most
    simp only [isWhiteSpace, whiteSpaceRanges, List.any_cons, List.any_nil, Bool.or_false,
      Bool.or_eq_false_iff, Bool.and_eq_false_iff, decide_eq_false_iff_not]
    omega

/-- A number is not written as nothing. -/
theorem toList_toString_ne_nil (value : Int) : (toString value).toList ≠ [] := by
  rw [toList_toString]
  split
  · exact List.cons_ne_nil _ _
  · exact Nat.toDigits_ne_nil

end Text

end GrammarService
