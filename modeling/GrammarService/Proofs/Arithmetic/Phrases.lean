import GrammarService.Proofs.Arithmetic.Expressions
import GrammarService.Proofs.Arithmetic.Layout
import GrammarService.Proofs.Parser.Derivations

namespace GrammarService

/-!
# What the states of arithmetic stand for

Wherever a walk of a rule is, what it has passed is a phrase of a kind that the state gives away:
nothing yet, a sentence, or the beginning of one. Every edge goes from a phrase to the phrase that
it makes with a token or with the rule that it calls. So derivations spell sentences.
-/

namespace Arithmetic

open GrammarService.Derivation

/-- What the tokens that a rule has passed amount to. -/
inductive Phrase
  | nothing
  | sentence
  | operation
  | opening
  | opened
  | program
  deriving DecidableEq

/-- The token types of a phrase. -/
def Phrase.Covers : Phrase → List Int → Prop
  | .nothing, types => types = []
  | .sentence, types => Sentence types
  | .operation, types =>
      ∃ left operator,
        Sentence left ∧ (operator = star ∨ operator = plus) ∧ types = left ++ [operator]
  | .opening, types => types = [leftParenthesis]
  | .opened, types => ∃ inner, Sentence inner ∧ types = leftParenthesis :: inner
  | .program, types => ∃ whole, Sentence whole ∧ types = whole ++ [endOfInput]

/-- The phrase that was passed at a state. -/
def phraseAt : Nat → Phrase
  | 0 | 1 | 2 | 6 | 9 | 24 | 26 | 28 => .nothing
  | 18 | 22 => .operation
  | 29 => .opening
  | 30 => .opened
  | 3 | 8 => .program
  | _ => .sentence

/-- A phrase, a token behind it, and the phrase that they make. -/
def tokenSteps : List (Phrase × Int × Phrase) :=
  [(.nothing, integer, .sentence), (.nothing, leftParenthesis, .opening),
    (.sentence, star, .operation), (.sentence, plus, .operation),
    (.opened, rightParenthesis, .sentence), (.sentence, endOfInput, .program)]

/-- A phrase, the phrase of a rule behind it, and the phrase that they make. -/
def ruleSteps : List (Phrase × Phrase × Phrase) :=
  [(.nothing, .sentence, .sentence), (.operation, .sentence, .sentence),
    (.opening, .sentence, .opened)]

/-- A token behind a phrase makes the phrase that is listed. -/
theorem covers_of_tokenSteps
    {before after : Phrase}
    {type : Int}
    {types : List Int}
    (listed : (before, type, after) ∈ tokenSteps)
    (covers : before.Covers types) :
    after.Covers (types ++ [type]) := by
  simp only [tokenSteps, List.mem_cons, Prod.mk.injEq, List.not_mem_nil, or_false] at listed
  rcases listed with ⟨rfl, rfl, rfl⟩ | ⟨rfl, rfl, rfl⟩ | ⟨rfl, rfl, rfl⟩ | ⟨rfl, rfl, rfl⟩ |
    ⟨rfl, rfl, rfl⟩ | ⟨rfl, rfl, rfl⟩
  · obtain rfl := covers
    exact .number
  · obtain rfl := covers
    rfl
  · exact ⟨types, star, covers, .inl rfl, rfl⟩
  · exact ⟨types, plus, covers, .inr rfl, rfl⟩
  · obtain ⟨inner, isInner, rfl⟩ := covers
    exact .group isInner
  · exact ⟨types, covers, rfl⟩

/-- The phrase of a rule behind a phrase makes the phrase that is listed. -/
theorem covers_of_ruleSteps
    {before inner after : Phrase}
    {types innerTypes : List Int}
    (listed : (before, inner, after) ∈ ruleSteps)
    (covers : before.Covers types)
    (coversInner : inner.Covers innerTypes) :
    after.Covers (types ++ innerTypes) := by
  simp only [ruleSteps, List.mem_cons, Prod.mk.injEq, List.not_mem_nil, or_false] at listed
  rcases listed with ⟨rfl, rfl, rfl⟩ | ⟨rfl, rfl, rfl⟩ | ⟨rfl, rfl, rfl⟩
  · obtain rfl := covers
    exact coversInner
  · obtain ⟨left, operator, isLeft, isOperator, rfl⟩ := covers
    rw [List.append_assoc]
    exact .binary isLeft isOperator coversInner
  · obtain rfl := covers
    exact ⟨innerTypes, coversInner, rfl⟩

/-- An edge leads from the phrase of its state to the phrase that it makes. -/
def fits
    (number : Nat) :
    Edge → Bool
  | .epsilon target _ | .precedence target _ => phraseAt target = phraseAt number
  | .atom target label => (phraseAt number, label, phraseAt target) ∈ tokenSteps
  | .call _ rule _ follow =>
      (phraseAt number, phraseAt (network.stopOf rule), phraseAt follow) ∈ ruleSteps
  | _ => false

/-- All edges lead from phrases to the phrases that they make. -/
theorem fits_of_mem
    {number : Nat}
    {edge : Edge}
    (inside : (network.state number).kind ≠ .ruleStop)
    (present : edge ∈ (network.state number).edges) :
    fits number edge = true := by
  have checked :
      ((List.range network.states.size).all fun number =>
        (network.state number).kind = .ruleStop ||
          (network.state number).edges.all (fits number)) = true := by
    decide
  simp only [List.all_eq_true, List.mem_range, Bool.or_eq_true, decide_eq_true_eq] at checked
  rcases Nat.lt_or_ge number network.states.size with inBounds | outside
  · exact (checked number inBounds).resolve_left inside edge present
  · simp [Network.state_of_size_le outside, Network.State.bare] at present

/-- At the start of a rule nothing has been passed. -/
theorem phraseAt_startOf (rule : Nat) : phraseAt (network.startOf rule) = .nothing := by
  match rule with
  | 0 | 1 | 2 => rfl
  | _ + 3 => rfl

/-- Only `expr` is left-recursive, and it is a sentence. -/
theorem phraseAt_stopOf
    {rule : Nat}
    (leftRecursive : network.isLeftRecursive rule = true) :
    phraseAt (network.stopOf rule) = .sentence := by
  match rule with
  | 0 | 2 => cases leftRecursive
  | 1 => rfl
  | _ + 3 => cases leftRecursive

/-- At the entry of the precedence loop there is a sentence. -/
theorem phraseAt_of_decides
    {number : Nat}
    (decides : (network.state number).precedenceDecision = true) :
    phraseAt number = .sentence := by
  have checked :
      ∀ number < network.states.size,
        (network.state number).precedenceDecision = true → phraseAt number = .sentence := by
    decide
  rcases Nat.lt_or_ge number network.states.size with inBounds | outside
  · exact checked number inBounds decides
  · simp [Network.state_of_size_le outside, Network.State.bare] at decides

/-- The token types of several derivations. -/
def typesOf (parts : List Derivation) : List Int :=
  (leavesOfAll parts).map Token.type

/-- A rule is the phrase at its end. -/
def Stands (part : Derivation) : Prop :=
  match part with
  | .leaf _ => True
  | .node _ rule parts => (phraseAt (network.stopOf rule)).Covers (typesOf parts)

/-- The parts that a walk of a rule has passed make the phrase of its state. -/
theorem covers_of_spells
    {rule number : Nat}
    {parts : List Derivation}
    (spells : Spells network rule number parts)
    (stand : ∀ part ∈ parts, Stands part) :
    (phraseAt number).Covers (typesOf parts) := by
  induction spells with
  | start =>
      rw [phraseAt_startOf]
      rfl
  | @free number parts edge before inside present isFree inductionHypothesis =>
      have fits := fits_of_mem inside present
      have covers := inductionHypothesis stand
      cases edge with
      | epsilon target _ | precedence target _ =>
          have same : phraseAt target = phraseAt number := by simpa [Arithmetic.fits] using fits
          exact same ▸ covers
      | predicate | action => cases fits
      | _ => cases isFree
  | @token number parts edge token before inside present admitted inductionHypothesis =>
      have fits := fits_of_mem inside present
      have covers := inductionHypothesis fun part member => stand part (by simp [member])
      cases edge with
      | atom target label =>
          obtain rfl : label = token.type := by simpa [Edge.admits] using admitted
          have listed : (phraseAt number, token.type, phraseAt target) ∈ tokenSteps := by
            simpa [Arithmetic.fits] using fits
          simpa [typesOf, leavesOfAll, leaves, Edge.target] using covers_of_tokenSteps listed covers
      | range | set | notSet | wildcard => cases fits
      | _ => cases admitted
  | @call number target callee follow node precedence parts below before inside present
      inductionHypothesis =>
      have covers := inductionHypothesis fun part member => stand part (by simp [member])
      have stands : Stands (.node node callee below) := stand _ (by simp)
      have listed :
          (phraseAt number, phraseAt (network.stopOf callee), phraseAt follow) ∈ ruleSteps := by
        simpa [Arithmetic.fits] using fits_of_mem inside present
      simpa [typesOf, leavesOfAll, leaves] using covers_of_ruleSteps listed covers stands
  | @round number node parts operand leftRecursive atEntry decides =>
      -- What the part stands for says it all: the operand was read as a rule of its own.
      have stands : Stands (.node node rule parts) := stand _ (by simp)
      rw [Stands, phraseAt_stopOf leftRecursive] at stands
      rw [phraseAt_of_decides decides]
      simpa [typesOf, leavesOfAll, leaves] using stands

mutual

/-- Every rule of a derivation stands for the phrase at its end. -/
theorem stands_of_isComplete :
    (derivation : Derivation) →
      Derivation.IsComplete network derivation →
        Stands derivation
  | .leaf _, _ => trivial
  | .node _ _ parts, ⟨spells, complete⟩ =>
      covers_of_spells spells (stand_of_areComplete parts complete)

/-- Every rule of several derivations stands for the phrase at its end. -/
theorem stand_of_areComplete :
    (parts : List Derivation) →
      Derivation.AreComplete network parts →
        ∀ part ∈ parts, Stands part
  | [], _, _, member => nomatch member
  | first :: others, ⟨complete, othersComplete⟩, part, member => by
      rcases List.mem_cons.mp member with isFirst | later
      · exact isFirst ▸ stands_of_isComplete first complete
      · exact stand_of_areComplete others othersComplete part later

end

end Arithmetic

end GrammarService
