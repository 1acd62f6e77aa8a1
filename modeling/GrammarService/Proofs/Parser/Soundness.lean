import GrammarService.Proofs.Parser.Contexts
import GrammarService.Proofs.Parser.Reading

namespace GrammarService

/-!
# Parse trees are derivations

A walk builds a tree of the tokens that it has read. At the end of the first rule no context waits
any more, and the tree is a derivation of the first visible tokens.
-/

namespace Parser

open GrammarService.Derivation

variable {σ : Type} [TokenSource σ]

/-- A walk builds a tree of the tokens that it has read. -/
def IsSound
    (network : Network)
    (firstRule : Nat)
    (visible : List Token)
    (run : Run σ) :
    Prop :=
  ∃ read, HasBuilt network firstRule run read ∧ HasRead visible run read

namespace IsSound

variable
  {network : Network}
  {firstRule : Nat}
  {visible : List Token}
  {run after : Run σ}

/-- Looking at tokens keeps a walk sound. -/
theorem quiet
    (sound : IsSound network firstRule visible run)
    (quiet : Quiet run after) :
    IsSound network firstRule visible after := by
  obtain ⟨read, ⟨rule, parts, numbers, leaves, builds, isRead⟩, hasRead⟩ := sound
  refine ⟨read, ⟨rule, parts, numbers, leaves, builds.congr ?_ ?_ ?_ ?_ ?_, isRead⟩,
    hasRead.quiet quiet⟩ <;> rw [quiet.same]

/-- Counting a step keeps a walk sound. -/
theorem counted
    (sound : IsSound network firstRule visible run) :
    IsSound network firstRule visible run.counted := by
  obtain ⟨read, ⟨rule, parts, numbers, leaves, builds, isRead⟩, hasRead⟩ := sound
  exact ⟨read, ⟨rule, parts, numbers, leaves, builds.congr rfl rfl rfl rfl rfl, isRead⟩,
    hasRead.congr rfl rfl⟩

/-- Every move keeps a walk sound. -/
theorem moves
    (shaped : network.CompilerShaped)
    (coherent : network.Coherent)
    (firstInRules : firstRule < network.ruleCount)
    (sound : IsSound network firstRule visible run)
    (moves : Moves network run after) :
    IsSound network firstRule visible after := by
  obtain ⟨read, ⟨rule, parts, numbers, leaves, builds, isRead⟩, hasRead⟩ := sound
  cases moves with
  | free inside present isFree =>
      exact ⟨read, ⟨rule, parts, numbers, leaves, builds.free inside present isFree, isRead⟩,
        hasRead.congr rfl rfl⟩
  | round inside present isFree atEntry decides goesOn innermost =>
      refine ⟨read, ⟨rule, _, numbers, leaves,
        builds.round shaped coherent inside present isFree atEntry decides goesOn innermost, ?_⟩,
        hasRead.congr rfl rfl⟩
      simpa [leavesOfAll, Derivation.leaves] using isRead
  | token inside present admitted =>
      refine ⟨read ++ [run.current], ⟨rule, _, numbers, leaves,
        builds.token inside present admitted, ?_⟩, hasRead.consumed.congr rfl rfl⟩
      simp [leavesOfAll, Derivation.leaves, ← isRead]
  | call inside present =>
      refine ⟨read, ⟨_, [], _, _, builds.call shaped coherent inside present, ?_⟩,
        hasRead.congr ?_ ?_⟩
      · simpa [leavesOfAll] using isRead
      · rw [Run.invoking_eq builds.linked]
      · rw [Run.invoking_eq builds.linked]
  | leave stopped plain linked goesOn =>
      exact ⟨read,
        isRead ▸ builds.leave shaped coherent firstInRules stopped plain linked goesOn,
        hasRead.congr rfl rfl⟩
  | leaveRecursion stopped recursive innermost linked goesOn =>
      refine ⟨read,
        isRead ▸ builds.leaveRecursion shaped coherent firstInRules stopped recursive innermost
          linked goesOn,
        hasRead.congr ?_ ?_⟩
      · simp only [Run.leaveRecursion]
        split <;> rfl
      · simp only [Run.leaveRecursion]
        split <;> rfl

/-- A walk that begins is sound once its first rule was entered. -/
theorem start
    {tokens : TokenStream σ}
    (isSound : tokens.Sound)
    (cache : PredictionCache)
    (inRules : firstRule < network.ruleCount) :
    IsSound network firstRule tokens.visible
      (let run := (Run.start tokens cache).addContext ⟨none, none⟩ firstRule
      if network.isLeftRecursive firstRule then
        run.enterRecursion 0 (network.startOf firstRule) 0
      else
        run.enterRule 0 (network.startOf firstRule)) := by
  have hasRead := HasRead.start isSound cache
  have waits :
      Waiting network firstRule #[⟨firstRule, #[]⟩] #[⟨none, none⟩] 0 firstRule [] []
        (openedRecursions network firstRule ⟨none, none⟩ []) :=
    .outermost rfl
  refine ⟨[], ⟨firstRule, [], [], [], ?_, rfl⟩, ?_⟩
  · cases recursive : network.isLeftRecursive firstRule with
    | true =>
        rw [openedRecursions, recursive] at waits
        exact {
          node := rfl
          spelled := .start
          complete := trivial
          stored := trivial
          waits := waits
          distinct := by simp [numbersOfAll]
          known := by simp [numbersOfAll, Run.enterRecursion, Run.addContext]
          linked := rfl
          inRules := inRules }
    | false =>
        rw [openedRecursions, recursive] at waits
        exact {
          node := rfl
          spelled := .start
          complete := trivial
          stored := trivial
          waits := waits
          distinct := by
            simp [numbersOfAll]
          known := by
            simp [numbersOfAll, Run.enterRule, Run.addContext, Run.start, Run.link]
          linked := rfl
          inRules := inRules }
  · cases network.isLeftRecursive firstRule <;> exact hasRead.congr rfl rfl

/-- At the end of the first rule the context is the root of a whole derivation. -/
theorem derivation
    (shaped : network.CompilerShaped)
    (sound : IsSound network firstRule visible run)
    (ended : run.hasEnded network = true) :
    ∃ parts,
      IsStored run.nodes (.node run.context firstRule parts) ∧
        (Derivation.numbers (.node run.context firstRule parts)).Nodup ∧
        Derivation.IsComplete network (.node run.context firstRule parts) ∧
        (∀ place < (leavesOfAll parts).length,
          (leavesOfAll parts)[place]? = visible[min place (visible.length - 1)]?) ∧
        (network.isLeftRecursive firstRule = true → run.recursions = [⟨none, none⟩]) := by
  obtain ⟨read, ⟨rule, parts, numbers, leaves, builds, rfl⟩, hasRead⟩ := sound
  simp only [Run.hasEnded, Bool.and_eq_true, decide_eq_true_eq, Option.isNone_iff_eq_none]
    at ended
  obtain ⟨complete, stored⟩ := builds.complete_context shaped ended.1
  have distinct := builds.distinct
  have waits := builds.waits
  generalize isRecursions : run.recursions = recursions at waits
  cases waits with
  | outermost linked =>
      refine ⟨parts, stored, by simpa [Derivation.numbers] using distinct, complete, ?_, ?_⟩
      · exact fun place inBounds => hasRead.getElem?_read inBounds
      · intro recursive
        simp [openedRecursions, recursive]
  | called _ linked =>
      simp [Run.link, Array.getD_eq_getD_getElem?, linked] at ended

end IsSound

/-- A rule that was parsed is a derivation of the first visible tokens. -/
theorem Ends.derivation_of_parseRule
    {grammar : ParserGrammar}
    {rule root : Nat}
    {tokens : TokenStream σ}
    {cache : PredictionCache}
    {after : Run σ}
    (shaped : grammar.network.CompilerShaped)
    (coherent : grammar.network.Coherent)
    (sound : tokens.Sound)
    (inRules : rule < grammar.network.ruleCount)
    (ends : Ends (parseRule grammar rule) (Run.start tokens cache) root after) :
    ∃ parts,
      IsStored after.nodes (.node root rule parts) ∧
        (Derivation.numbers (.node root rule parts)).Nodup ∧
        Derivation.IsComplete grammar.network (.node root rule parts) ∧
        ∀ place < (leavesOfAll parts).length,
          (leavesOfAll parts)[place]? =
            tokens.visible[min place (tokens.visible.length - 1)]? := by
  obtain ⟨_, started, isStarted, ends⟩ := ends_bind_iff.mp ends
  rw [ends_modify_iff] at isStarted
  obtain ⟨_, walked, walks, ends⟩ := ends_bind_iff.mp ends
  have soundFirst : IsSound grammar.network rule tokens.visible started :=
    isStarted ▸ IsSound.start sound cache inRules
  obtain ⟨soundLast, ended⟩ :=
    walks.walk_induction
      (IsSound grammar.network rule tokens.visible)
      (fun run sound => sound.counted)
      (fun run after sound _ stepped => by
        obtain ⟨between, quiet, moves⟩ := stepped.moves_of_stepOnce
        exact (sound.quiet quiet).moves shaped coherent inRules moves)
      soundFirst
  obtain ⟨parts, stored, distinct, complete, inOrder, recursions⟩ :=
    soundLast.derivation shaped ended
  change
    Ends (if grammar.network.isLeftRecursive rule = true then _ else _) walked root after
    at ends
  split at ends
  · rename_i recursive
    simp only [ends_bind_iff, ends_get_iff] at ends
    obtain ⟨_, _, ⟨rfl, rfl⟩, ends⟩ := ends
    rw [recursions recursive] at ends
    simp only [ends_bind_iff, ends_set_iff, ends_pure_iff] at ends
    obtain ⟨_, _, rfl, rfl, rfl⟩ := ends
    exact ⟨parts, stored, distinct, complete, inOrder⟩
  · simp only [ends_bind_iff, ends_get_iff, ends_pure_iff] at ends
    obtain ⟨_, _, ⟨rfl, rfl⟩, rfl, rfl⟩ := ends
    exact ⟨parts, stored, distinct, complete, inOrder⟩

/-- A network that belongs to a grammar was read, and each of its rules has a name. -/
theorem coherent_of_ofData
    {name : String}
    {data : RecognizerData}
    {grammar : ParserGrammar}
    (isGrammar : ParserGrammar.ofData name data = .ok grammar) :
    grammar.network.Coherent ∧ grammar.ruleNames.size = grammar.network.ruleCount := by
  obtain ⟨network, isNetwork, isGrammar⟩ := ok_of_bind isGrammar
  split at isGrammar
  · rename_i sameCount
    cases isGrammar
    refine ⟨?_, by simp [sameCount]⟩
    unfold networkOf at isNetwork
    split at isNetwork
    · cases isNetwork
    · rename_i decoded
      split at isNetwork
      · cases isNetwork
        exact Network.coherent_of_decode decoded
      · cases isNetwork
  · cases isGrammar

namespace Suffixes

/-- The data of a parser for the rule `e : e '+' | 'i' ;`, where the loop is entered at state 3. -/
def data : RecognizerData where
  literalNames := [none, some "'i'", some "'+'"]
  symbolicNames := []
  ruleNames := ["e"]
  channelNames := []
  modeNames := []
  encodedNetwork :=
    [4, 1, 2, 10, 2, 0, 7, 0, 1, 0, 10, 0, 5, 0, 7, 1, 0, 1, 0, 8, 0, 9, 0, 12, 0, 8, 0, 1, 0,
      1, 0, 0, 0,
      10,
      0, 2, 1, 0, 0, 0, 2, 3, 5, 1, 0, 0, 3, 4, 1, 0, 0, 0, 3, 9, 1, 0, 0, 0,
      4, 5, 1, 0, 0, 0, 5, 6, 10, 1, 0, 0, 6, 7, 5, 2, 0, 0, 7, 8, 1, 0, 0, 0,
      8, 3, 1, 0, 0, 0, 9, 1, 1, 0, 0, 0,
      1, 3]

/-- The grammar itself. -/
def grammar : ParserGrammar :=
  (ParserGrammar.ofData "Suffixes" data).toOption.getD default

/-- A parser at the beginning of `i+`. -/
def parser : Parser ListedTokens :=
  Parser.ofStream grammar
    (TokenStream.ofSource (ListedTokens.ofList [(1, "i", 0), (2, "+", 0)]))

/-- The tree of `i+`: the inner node is the left operand of the outer one. -/
def tree : ParseTree where
  nodes :=
    #[⟨0, #[.token ⟨1, "i", 0, 0, 1, 1, 0, 0⟩]⟩,
      ⟨0, #[.rule 0, .token ⟨2, "+", 0, 1, 2, 1, 1, 1⟩]⟩]
  root := 1

set_option maxRecDepth 20000 in
/-- Parsing `i+` gives its tree. -/
theorem invoke_suffixes : (parser.invoke "e").1 = .ok tree := by
  cbv

end Suffixes

end Parser

end GrammarService
