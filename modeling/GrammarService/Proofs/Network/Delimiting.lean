import GrammarService.Proofs.Network.Encoding

namespace GrammarService

/-!
# An encoded network says itself where it ends

A reader looks at one integer after the other, and never at one that it does not take. So what it
does with the integers that it takes does not depend on those that follow, and if one of them is
missing it gets to the place where that one should be and gives up there. This passes from the
readers of single integers to the readers of all parts, as every check of a part is about integers
that were read before.
-/

namespace Network

namespace Decoder

/-- A reader gives up where the integers end if it is given only the first of some integers. -/
def EndsEarly
    (decoder : Decoder α)
    (integers : List Int) :
    Prop :=
  ∀ (length offset : Nat),
    length < integers.length →
      decoder.run ⟨integers.take length, offset⟩ = .error (.truncated (offset + length))

/-- What a reader takes, it takes whatever follows, and it takes no less. -/
structure IsDelimiting (decoder : Decoder α) : Prop where
  takes :
    ∀ {remaining : List Int} {offset : Nat} {value : α} {after : Cursor},
      decoder.run ⟨remaining, offset⟩ = .ok (value, after) →
        ∃ integers,
          remaining = integers ++ after.remaining ∧
            Takes decoder integers value ∧ EndsEarly decoder integers

namespace IsDelimiting

/-- A reader that succeeds without reading, or does not succeed. -/
theorem of_unread
    {decoder : Decoder α}
    (unread :
      ∀ {remaining : List Int} {offset : Nat} {value : α} {after : Cursor},
        decoder.run ⟨remaining, offset⟩ = .ok (value, after) →
          after.remaining = remaining ∧ Takes decoder [] value) :
    IsDelimiting decoder where
  takes succeeds := by
    obtain ⟨same, taken⟩ := unread succeeds
    refine ⟨[], by simp [same], taken, ?_⟩
    intro length _ short
    exact absurd short (Nat.not_lt_zero _)

theorem pure (value : α) : IsDelimiting (Pure.pure value : Decoder α) :=
  .of_unread fun succeeds => by
    cases succeeds
    exact ⟨rfl, .pure value⟩

/-- A check reads nothing. -/
theorem lift (checked : Except DecodeError α) : IsDelimiting (liftM checked : Decoder α) := by
  refine .of_unread fun {remaining offset value after} succeeds => ?_
  cases checked with
  | error fault => cases succeeds
  | ok value =>
      cases succeeds
      exact ⟨rfl, .lift rfl⟩

theorem throw (fault : DecodeError) : IsDelimiting (MonadExcept.throw fault : Decoder α) :=
  .of_unread fun succeeds => by cases succeeds

theorem malformed (fault : Malformation) : IsDelimiting (Decoder.malformed fault : Decoder α) :=
  .throw _

theorem integer : IsDelimiting Decoder.integer where
  takes := by
    intro remaining offset value after succeeds
    cases remaining with
    | nil => cases succeeds
    | cons first rest =>
        cases succeeds
        refine ⟨[_], rfl, .integer _, ?_⟩
        intro length offset short
        rw [Nat.lt_one_iff.mp short]
        rfl

/-- Readers that end by themselves can be run one after the other. -/
theorem bind
    {decoder : Decoder α}
    {next : α → Decoder β}
    (first : IsDelimiting decoder)
    (second : ∀ middle, IsDelimiting (next middle)) :
    IsDelimiting (decoder >>= next) where
  takes := by
    intro remaining offset value after succeeds
    rw [StateT.run_bind] at succeeds
    obtain ⟨⟨middle, between⟩, firstSucceeds, secondSucceeds⟩ := ok_of_bind succeeds
    obtain ⟨integers, isRemaining, firstTakes, firstEnds⟩ := first.takes firstSucceeds
    obtain ⟨others, isBetween, secondTakes, secondEnds⟩ := (second middle).takes secondSucceeds
    refine ⟨integers ++ others, ?_, firstTakes.bind secondTakes, ?_⟩
    · rw [isRemaining, isBetween, List.append_assoc]
    intro length offset short
    rw [StateT.run_bind]
    rcases Nat.lt_or_ge length integers.length with within | beyond
    · rw [List.take_append_of_le_length within.le, firstEnds length offset within]
      rfl
    · -- The first reader takes all that it needs, so that the second one comes to the end.
      obtain ⟨more, rfl⟩ := Nat.exists_eq_add_of_le beyond
      rw [List.take_length_add_append, firstTakes, ← Nat.add_assoc]
      rw [List.length_append] at short
      exact secondEnds more _ (Nat.add_lt_add_iff_left.mp short)

/-- A reader can end with a value that it has at hand. -/
theorem map
    {decoder : Decoder α}
    (first : IsDelimiting decoder)
    (value : α → β) :
    IsDelimiting (decoder >>= fun middle => Pure.pure (value middle)) :=
  first.bind fun middle => .pure (value middle)

/-- The place of a count is told only where the count is negative. -/
theorem count : IsDelimiting Decoder.count where
  takes := by
    intro remaining offset value after succeeds
    cases remaining with
    | nil => cases succeeds
    | cons first rest =>
        change
          (if first < 0 then
              Decoder.malformed (.negativeCount first offset)
            else
              Pure.pure first.toNat : Decoder Nat).run ⟨rest, offset + 1⟩ = _ at succeeds
        split at succeeds
        · cases succeeds
        · rename_i notNegative
          cases succeeds
          refine ⟨[first], rfl, ?_, ?_⟩
          · have isCount := Takes.count first.toNat
            rwa [Int.toNat_of_nonneg (Int.not_lt.mp notNegative)] at isCount
          · intro length offset short
            rw [Nat.lt_one_iff.mp short]
            rfl

theorem repeatFrom
    {item : Nat → Decoder α}
    (each : ∀ number, IsDelimiting (item number))
    (next length : Nat) :
    IsDelimiting (Decoder.repeatFrom item next length) := by
  induction length generalizing next with
  | zero => exact .pure []
  | succ length inductionHypothesis =>
      exact (each next).bind fun first => (inductionHypothesis (next + 1)).map (first :: ·)

/-- The number of items of a section is read before them. -/
theorem counted
    {item : Nat → Decoder α}
    (each : ∀ number, IsDelimiting (item number)) :
    IsDelimiting (Decoder.counted item) :=
  count.bind (repeatFrom each 0)

end IsDelimiting

end Decoder

open Decoder

/-- Nothing is read after a version that is not known. -/
theorem isDelimiting_decodeHeader : IsDelimiting decodeHeader := by
  refine .bind .integer fun version => ?_
  dsimp only
  split
  case' isTrue => refine .bind (.throw _) fun _ => ?_
  all_goals
    refine .bind .integer fun kind => ?_
    split
    · exact .pure _
    · exact .pure _
    · exact .throw _

/-- Whether a state has a link is seen from its kind, which is read before. -/
theorem isDelimiting_decodeState (number : Nat) : IsDelimiting (decodeState number) := by
  refine .bind .integer fun code => ?_
  split
  · exact .pure _
  · split
    · exact .throw _
    · refine .bind .integer fun rule => ?_
      dsimp only
      split
      · exact .map .integer _
      · exact .pure _

/-- Links are checked when all states were read. -/
theorem isDelimiting_decodeStates : IsDelimiting decodeStates := by
  refine .bind (.counted isDelimiting_decodeState) fun encoded => ?_
  exact .bind (.lift _) fun _ => .lift _

theorem isDelimiting_decodeMarks
    (refer : Int → Except DecodeError Nat)
    (mark : State → State)
    (states : Array State) :
    IsDelimiting (decodeMarks refer mark states) :=
  .map (.counted fun _ => .bind .integer fun _ => .lift _) _

theorem isDelimiting_decodeRules
    (kind : GrammarKind)
    (states : Array State) :
    IsDelimiting (decodeRules kind states) := by
  refine .counted fun _ => .bind .integer fun value => .bind (.lift _) fun start => ?_
  cases kind with
  | lexer => exact .map .integer _
  | parser => exact .pure _

theorem isDelimiting_decodeModes (states : Array State) : IsDelimiting (decodeModes states) :=
  .counted fun _ => .bind .integer fun _ => .lift _

/-- The flag of a set stands behind its number of ranges and before them. -/
theorem isDelimiting_decodeSet : IsDelimiting decodeSet := by
  refine .bind .count fun ranges => .bind .integer fun withEnd => .map (.repeatFrom ?_ 0 ranges) _
  exact fun _ => .bind .integer fun _ => .map .integer _

theorem isDelimiting_decodeEdge (tables : EdgeTables) : IsDelimiting (decodeEdge tables) :=
  .bind .integer fun _ => .bind (.lift _) fun _ =>
    .bind .integer fun _ => .bind (.lift _) fun _ =>
      .bind .integer fun _ => .bind .integer fun _ =>
        .bind .integer fun _ => .bind .integer fun _ => .map (.lift _) _

theorem isDelimiting_decodeDecisions
    (states : Array State) :
    IsDelimiting (decodeDecisions states) := by
  refine .counted fun decision => .bind .integer fun value => .bind (.lift _) fun number => ?_
  dsimp only
  split
  · exact .pure _
  · exact .malformed _

/-- Both arguments of an action are read before its type counts. -/
theorem isDelimiting_decodeLexerAction
    (modeCount : Nat) :
    IsDelimiting (decodeLexerAction modeCount) := by
  refine .bind .integer fun type => .bind .integer fun first => .bind .integer fun second => ?_
  split
  case h_3 | h_6 => exact .map (.lift _) _
  case h_9 => exact .throw _
  all_goals exact .pure _

/-- Only lexers have a section for actions, and the kind of grammar is read first. -/
theorem isDelimiting_decoder : IsDelimiting decoder := by
  refine .bind isDelimiting_decodeHeader fun kind => .bind .integer fun maxTokenType => ?_
  refine .bind isDelimiting_decodeStates fun states => ?_
  refine .bind (isDelimiting_decodeMarks ..) fun states => ?_
  refine .bind (isDelimiting_decodeMarks ..) fun states => ?_
  refine .bind (isDelimiting_decodeRules ..) fun rules => .bind (.lift _) fun stops => ?_
  refine .bind (isDelimiting_decodeModes _) fun modes => ?_
  refine .bind (.counted fun _ => isDelimiting_decodeSet) fun sets => ?_
  refine .bind (.counted fun _ => isDelimiting_decodeEdge _) fun edges => ?_
  refine .bind (.lift _) fun states => .bind (isDelimiting_decodeDecisions _) fun decisions => ?_
  cases kind with
  | lexer => exact .map (.counted fun _ => isDelimiting_decodeLexerAction _) _
  | parser => exact .map (.pure _) _

/--
An accepted list of integers begins with an encoding that is accepted whatever follows it, always
as the same network. Whoever is given less of that encoding misses the integer at the place where
it was cut, and finds nothing else wrong.
-/
theorem decode_delimits
    {data : List Int}
    {network : Network}
    (accepted : decode data = .ok network) :
    ∃ length ≤ data.length,
      (∀ rest, decode (data.take length ++ rest) = .ok network) ∧
        ∀ shorter < length, decode (data.take shorter) = .error (.truncated shorter) := by
  cases run : decoder.run ⟨data, 0⟩ with
  | error fault =>
      rw [decode, run] at accepted
      cases accepted
  | ok made =>
      obtain ⟨found, after⟩ := made
      rw [decode, run] at accepted
      cases accepted
      obtain ⟨integers, rfl, takes, endsEarly⟩ := isDelimiting_decoder.takes run
      refine ⟨integers.length, by simp, ?_, ?_⟩
      · intro rest
        rw [List.take_left, decode, takes]
        rfl
      · intro shorter short
        rw [List.take_append_of_le_length short.le, decode, endsEarly shorter 0 short,
          Nat.zero_add]
        rfl

namespace Trailed

/-- A lexer with a symbol set and an action, and two integers that nobody reads. -/
def data : List Int :=
  [4, 0, 1, 4, 6, -1, 2, 0, 7, 0, 1, 0, 0, 0, 1, 1, 1, 1, 0, 1, 1, 0, 97, 122,
    3, 0, 1, 1, 0, 0, 0, 1, 3, 1, 0, 0, 0, 3, 2, 7, 0, 0, 0,
    1, 0, 1, 6, 0, 0, 7, 7]

/-- The network of the lexer. -/
def network : Network :=
  (decode data).toOption.getD default

theorem delimits_data :
    decode data = .ok network ∧
      ∃ length ≤ data.length,
        (∀ rest, decode (data.take length ++ rest) = .ok network) ∧
          ∀ shorter < length, decode (data.take shorter) = .error (.truncated shorter) :=
  have accepted : decode data = .ok network := by cbv
  ⟨accepted, decode_delimits accepted⟩

/-- The encoding ends before the last two integers. -/
example : decode (data.take 48) = .error (.truncated 48) ∧ (decode (data.take 49)).isOk := by
  decide +kernel

end Trailed

end Network

end GrammarService
