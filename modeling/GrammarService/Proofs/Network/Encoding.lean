import GrammarService.Network.Draft
import GrammarService.Proofs.IntervalSet.Canonical
import GrammarService.Proofs.Network.Coherent

namespace GrammarService

/-!
# Reading back what was written

An encoded network has no marks between its parts: each part says itself where it ends. So a reader
of a part is right if it takes the integers of the part, whatever follows them, and gives what they
were written for. Readers that are right are put together to readers of longer parts that are.
-/

namespace Network

namespace Decoder

/-- A reader takes some integers, whatever follows them, and gives a value. -/
def Takes
    (decoder : Decoder α)
    (integers : List Int)
    (value : α) :
    Prop :=
  ∀ (rest : List Int) (offset : Nat),
    decoder.run ⟨integers ++ rest, offset⟩ = .ok (value, ⟨rest, offset + integers.length⟩)

namespace Takes

theorem reads
    {decoder : Decoder α}
    {integers : List Int}
    {value : α}
    (takes : Takes decoder integers value) :
    Reads decoder value :=
  ⟨_, _, takes [] 0⟩

theorem pure (value : α) : Takes (Pure.pure value) [] value :=
  fun _ _ => rfl

theorem bind
    {decoder : Decoder α}
    {next : α → Decoder β}
    {integers others : List Int}
    {middle : α}
    {value : β}
    (first : Takes decoder integers middle)
    (second : Takes (next middle) others value) :
    Takes (decoder >>= next) (integers ++ others) value := by
  intro rest offset
  rw [List.append_assoc, StateT.run_bind, first, List.length_append, ← Nat.add_assoc]
  exact second rest (offset + integers.length)

/-- A reader that ends with a value it has at hand takes what it took before. -/
theorem map
    {decoder : Decoder α}
    {integers : List Int}
    {middle : α}
    (first : Takes decoder integers middle)
    (value : α → β) :
    Takes (decoder >>= fun middle => Pure.pure (value middle)) integers (value middle) := by
  have both :
      Takes (decoder >>= fun middle => Pure.pure (value middle)) (integers ++ [])
        (value middle) :=
    first.bind (pure (value middle))
  rwa [List.append_nil] at both

/-- A check that succeeds takes nothing. -/
theorem lift
    {checked : Except DecodeError α}
    {value : α}
    (succeeds : checked = .ok value) :
    Takes (liftM checked) [] value := by
  subst succeeds
  exact fun _ _ => rfl

/-- A check that succeeds takes nothing before what follows it. -/
theorem lift_bind
    {checked : Except DecodeError α}
    {next : α → Decoder β}
    {integers : List Int}
    {middle : α}
    {value : β}
    (succeeds : checked = .ok middle)
    (second : Takes (next middle) integers value) :
    Takes (liftM checked >>= next) integers value :=
  (lift succeeds).bind second

theorem integer (value : Int) : Takes Decoder.integer [value] value :=
  fun _ _ => rfl

theorem integer_bind
    {next : Int → Decoder β}
    {first : Int}
    {integers : List Int}
    {value : β}
    (second : Takes (next first) integers value) :
    Takes (Decoder.integer >>= next) (first :: integers) value :=
  (integer first).bind second

theorem count (number : Nat) : Takes Decoder.count [(number : Int)] number := by
  intro rest offset
  have notNegative : ¬ (number : Int) < 0 := by omega
  change
    (if (number : Int) < 0 then
        malformed (.negativeCount number offset)
      else
        Pure.pure (number : Int).toNat : Decoder Nat).run ⟨rest, offset + 1⟩ = _
  rw [if_neg notNegative]
  rfl

/-- Items are read one after the other. -/
theorem repeatFrom
    {item : Nat → Decoder β}
    {encode : α → List Int}
    {items : List α}
    {values : List β}
    (length : values.length = items.length)
    {next : Nat}
    (each :
      ∀ {place : Nat} {given : α} {value : β},
        items[place]? = some given →
          values[place]? = some value →
            Takes (item (next + place)) (encode given) value) :
    Takes (Decoder.repeatFrom item next items.length) (items.flatMap encode) values := by
  induction items generalizing values next with
  | nil =>
      cases List.eq_nil_of_length_eq_zero length
      exact pure []
  | cons given items inductionHypothesis =>
      cases values with
      | nil => cases length
      | cons value values =>
          have head : Takes (item next) (encode given) value := by
            apply @each 0 <;> rfl
          refine head.bind ((inductionHypothesis (Nat.succ.inj length) ?_).map _)
          intro place given' value' isGiven isValue
          rw [Nat.add_right_comm]
          exact @each (place + 1) given' value' isGiven isValue

/-- A section is read as its items. -/
theorem counted
    {item : Nat → Decoder β}
    {encode : α → List Int}
    {items : List α}
    {values : List β}
    (length : values.length = items.length)
    (each :
      ∀ {place : Nat} {given : α} {value : β},
        items[place]? = some given →
          values[place]? = some value →
            Takes (item place) (encode given) value) :
    Takes (Decoder.counted item) (Draft.encodeSection items encode) values := by
  refine (count items.length).bind (repeatFrom length ?_)
  intro place given value isGiven isValue
  rw [Nat.zero_add]
  exact each isGiven isValue

/-- A section whose items do not depend on their places is read as its items. -/
theorem counted_map
    {item : Decoder β}
    {encode : α → List Int}
    {items : List α}
    (value : α → β)
    (each : ∀ given ∈ items, Takes item (encode given) (value given)) :
    Takes (Decoder.counted fun _ => item) (Draft.encodeSection items encode)
      (items.map value) := by
  refine counted (by simp) ?_
  intro place given found isGiven isFound
  rw [List.getElem?_map, isGiven] at isFound
  cases isFound
  exact each given (List.mem_of_getElem? isGiven)

/-- A section of items that are read as they are. -/
theorem counted_self
    {item : Nat → Decoder α}
    {encode : α → List Int}
    {items : List α}
    (each : ∀ (place : Nat), ∀ given ∈ items, Takes (item place) (encode given) given) :
    Takes (Decoder.counted item) (Draft.encodeSection items encode) items := by
  refine counted rfl ?_
  intro place given found isGiven isFound
  rw [isGiven] at isFound
  cases isFound
  exact each place given (List.mem_of_getElem? isGiven)

end Takes

end Decoder

open Decoder

/-- A number that is not written as another one. -/
def FitsEncoding (number : Nat) : Prop :=
  number < 2147483648

instance (number : Nat) : Decidable (FitsEncoding number) :=
  inferInstanceAs (Decidable (number < 2147483648))

/-- A number that fits is written as it is. -/
theorem FitsEncoding.encodeNumber_eq
    {number : Nat}
    (fits : FitsEncoding number) :
    Draft.encodeNumber number = number := by
  unfold FitsEncoding at fits
  unfold Draft.encodeNumber
  apply Int.bmod_eq_of_le <;> omega

/-- A number that is not negative stands for itself. -/
theorem index?_natCast (number : Nat) : index? (number : Int) = some number := by
  simp [index?]

/-- A rule is read as it was written, also where there is none. -/
theorem index?_encodeRule
    {rule : Option Nat}
    (fits : ∀ number, rule = some number → FitsEncoding number) :
    index? (Draft.encodeRule rule) = rule := by
  cases rule with
  | none => rfl
  | some number =>
      rw [Draft.encodeRule, (fits number rfl).encodeNumber_eq]
      exact index?_natCast number

/-- A reference to a state that is there is accepted. -/
theorem stateReference_encodeNumber
    {states : Array State}
    {number : Nat}
    (fits : FitsEncoding number)
    (isPresent : IsPresent states number) :
    stateReference states (Draft.encodeNumber number) = .ok number := by
  obtain ⟨state, present, valid⟩ := isPresent
  rw [fits.encodeNumber_eq]
  simp only [stateReference, index?_natCast, present, valid, ↓reduceIte]

/-- A reference to a state of the kind that is expected is accepted. -/
theorem stateReferenceOf_encodeNumber
    {states : Array State}
    {number : Nat}
    {state : State}
    {expected : StateKind}
    (fits : FitsEncoding number)
    (present : states[number]? = some state)
    (isKind : state.kind = expected)
    (valid : expected ≠ .invalid) :
    stateReferenceOf states expected (Draft.encodeNumber number) = .ok number := by
  have sameKind :
      (states.getD number (State.bare number .invalid none)).kind = expected := by
    simpa [Array.getD_eq_getD_getElem?, present] using isKind
  have required : requireKind states number expected = .ok () := by
    rw [requireKind, sameKind]
    exact if_pos rfl
  rw [stateReferenceOf, stateReference_encodeNumber fits ⟨state, present, isKind ▸ valid⟩]
  change (requireKind states number expected >>= fun _ => pure number) = _
  rw [required]
  rfl

/-- A reference to a rule that is there is accepted. -/
theorem ruleReference_encodeNumber
    {rule ruleCount : Nat}
    (fits : FitsEncoding rule)
    (inRules : rule < ruleCount) :
    ruleReference ruleCount (Draft.encodeNumber rule) = .ok rule := by
  rw [fits.encodeNumber_eq]
  simp [ruleReference, index?_natCast, Option.filter, inRules]

/-- A reference to a mode that is there is accepted. -/
theorem modeReference_encodeNumber
    {mode modeCount : Nat}
    (fits : FitsEncoding mode)
    (inModes : mode < modeCount) :
    modeReference modeCount (Draft.encodeNumber mode) = .ok mode := by
  rw [fits.encodeNumber_eq]
  simp [modeReference, index?_natCast, Option.filter, inModes]

/-- The kind of a present state is read as it was written. -/
theorem ofCode?_code
    {kind : StateKind}
    (valid : kind ≠ .invalid) :
    StateKind.ofCode? kind.code = some kind := by
  cases kind with
  | invalid => exact absurd rfl valid
  | _ => rfl

theorem takes_decodeHeader (kind : GrammarKind) :
    Takes decodeHeader [encodingVersion, Draft.encodeKind kind] kind := by
  cases kind <;> exact fun _ _ => rfl

/-- A state as it is read: what it is written with, and no more. -/
def encodedStateOf
    (number : Nat)
    (state : DraftState) :
    EncodedState where
  state := State.bare number state.kind state.rule
  link :=
    if state.kind = .loopEnd || state.kind.isBlockStart then
      some (Draft.encodeRule state.link)
    else
      none

/-- A state that is present is read as it was written. -/
theorem takes_decodeState
    {state : DraftState}
    (valid : state.kind ≠ .invalid)
    (fits : ∀ number, state.rule = some number → FitsEncoding number)
    (number : Nat) :
    Takes (decodeState number) (Draft.encodeState state) (encodedStateOf number state) := by
  have notInvalid : state.kind.code ≠ StateKind.invalid.code := by
    cases isKind : state.kind with
    | invalid => exact absurd isKind valid
    | _ => decide
  unfold decodeState Draft.encodeState encodedStateOf
  refine .integer_bind ?_
  rw [if_neg notInvalid, ofCode?_code valid]
  refine .integer_bind ?_
  rw [index?_encodeRule fits]
  dsimp only
  split
  · exact (Takes.integer _).map _
  · exact .pure _

/-- Marks are read and set as they were written. -/
theorem takes_decodeMarks
    {refer : Int → Except DecodeError Nat}
    {mark : State → State}
    {states : Array State}
    {numbers : List Nat}
    (refers : ∀ number ∈ numbers, refer (Draft.encodeNumber number) = .ok number) :
    Takes (decodeMarks refer mark states)
      (Draft.encodeSection numbers fun number => [Draft.encodeNumber number])
      (numbers.foldl (fun states number => states.modify number mark) states) := by
  have marked :
      Takes (Decoder.counted fun _ => do refer (← Decoder.integer))
        (Draft.encodeSection numbers fun number => [Draft.encodeNumber number]) numbers :=
    Takes.counted_self fun _ number member => .integer_bind (.lift (refers number member))
  exact marked.map _

/-- The entry of a rule as it is read: token types are those of lexers. -/
def ruleEntry
    (kind : GrammarKind)
    (rule : Nat × Int) :
    Nat × Option Int :=
  match kind with
  | .lexer => (rule.1, some rule.2)
  | .parser => (rule.1, none)

/-- Rules are read as they were written. -/
theorem takes_decodeRules
    {kind : GrammarKind}
    {states : Array State}
    {rules : List (Nat × Int)}
    (starts :
      ∀ rule ∈ rules,
        stateReferenceOf states .ruleStart (Draft.encodeNumber rule.1) = .ok rule.1) :
    Takes (decodeRules kind states) (Draft.encodeSection rules (Draft.encodeRuleEntry kind))
      (rules.map (ruleEntry kind)) := by
  refine Takes.counted_map (ruleEntry kind) fun rule member => ?_
  cases kind with
  | lexer =>
      refine .integer_bind (.lift_bind (starts rule member) ?_)
      exact (Takes.integer rule.2).map _
  | parser =>
      refine .integer_bind (.lift_bind (starts rule member) ?_)
      exact .pure _

/-- Modes are read as they were written. -/
theorem takes_decodeModes
    {states : Array State}
    {modes : List Nat}
    (starts :
      ∀ mode ∈ modes, stateReferenceOf states .tokenStart (Draft.encodeNumber mode) = .ok mode) :
    Takes (decodeModes states)
      (Draft.encodeSection modes fun mode => [Draft.encodeNumber mode]) modes :=
  Takes.counted_self fun _ mode member => .integer_bind (.lift (starts mode member))

/-- A set is read as the ranges it was written with. -/
theorem takes_decodeSet (ranges : List (Int × Int)) :
    Takes decodeSet (Draft.encodeSet ranges) (IntervalSet.ofRanges ranges) := by
  have intervals :
      Takes
        (Decoder.repeatFrom
          (fun _ => do
            let first ← Decoder.integer
            let last ← Decoder.integer
            return (first, last))
          0 ranges.length)
        (ranges.flatMap fun range => [range.1, range.2]) ranges := by
    refine Takes.repeatFrom rfl ?_
    intro place range found isRange isFound
    rw [isRange] at isFound
    cases isFound
    exact .integer_bind (.integer_bind (.pure _))
  refine (Takes.count ranges.length).bind (.integer_bind ?_)
  exact intervals.map _

/-- Decisions are read as they were written. -/
theorem takes_decodeDecisions
    {states : Array State}
    {decisions : List Nat}
    (decides :
      ∀ number ∈ decisions,
        FitsEncoding number ∧
          ∃ state, states[number]? = some state ∧ state.kind.isDecision = true) :
    Takes (decodeDecisions states)
      (Draft.encodeSection decisions fun number => [Draft.encodeNumber number]) decisions := by
  refine Takes.counted_self fun place number member => ?_
  obtain ⟨fits, state, present, isDecision⟩ := decides number member
  have valid : state.kind ≠ .invalid := by
    rintro invalid
    rw [invalid] at isDecision
    cases isDecision
  have sameKind :
      (states.getD number (State.bare number .invalid none)).kind.isDecision = true := by
    simpa [Array.getD_eq_getD_getElem?, present] using isDecision
  refine .integer_bind (.lift_bind (stateReference_encodeNumber fits ⟨state, present, valid⟩) ?_)
  dsimp only
  rw [if_pos sameKind]
  exact .pure _

/-- A lexer action is read as it was written, if its mode is there. -/
theorem takes_decodeLexerAction
    {modeCount : Nat}
    {action : LexerAction}
    (inModes : ∀ mode, action.mode? = some mode → FitsEncoding mode ∧ mode < modeCount) :
    Takes (decodeLexerAction modeCount) (Draft.encodeLexerAction action) action := by
  cases action with
  | mode number =>
      obtain ⟨fits, inBounds⟩ := inModes number rfl
      refine .integer_bind (.integer_bind (.integer_bind ?_))
      exact .lift_bind (modeReference_encodeNumber fits inBounds) (.pure _)
  | pushMode number =>
      obtain ⟨fits, inBounds⟩ := inModes number rfl
      refine .integer_bind (.integer_bind (.integer_bind ?_))
      exact .lift_bind (modeReference_encodeNumber fits inBounds) (.pure _)
  | _ => exact .integer_bind (.integer_bind (.integer_bind (.pure _)))

end Network

end GrammarService
