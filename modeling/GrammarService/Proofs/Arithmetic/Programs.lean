import GrammarService.Proofs.Arithmetic.Phrases
import GrammarService.Proofs.Arithmetic.Reading
import GrammarService.Proofs.Parser.Repeating

namespace GrammarService

/-!
# Parsing programs

A program is an expression and the end of the input. A parser of arithmetic takes exactly the
sentences for programs, and the tree that it gives shows the one expression that the tokens stand
for when operators are grouped by their strength.
-/

namespace Arithmetic

open GrammarService.Parser

/-- A tree shows a program: below its root there is an expression, and then the end of the input. -/
def ShowsProgram
    (tree : ParseTree)
    (expression : Expression)
    (ending : Token) :
    Prop :=
  ∃ inner,
    tree.nodes[tree.root]? = some ⟨0, #[.rule inner, .token ending]⟩ ∧
      Shows tree.nodes 0 inner expression

/-- A tree shows one program only. -/
theorem ShowsProgram.unique
    {tree : ParseTree}
    {first second : Expression}
    {ending other : Token}
    (shows : ShowsProgram tree first ending)
    (showsToo : ShowsProgram tree second other) :
    first = second := by
  obtain ⟨inner, isRoot, showsInner⟩ := shows
  obtain ⟨inner', isRoot', showsInner'⟩ := showsToo
  obtain rfl : inner = inner' := by simp_all
  exact showsInner.unique showsInner'

variable {σ : Type} [TokenSource σ] {visible : List Token}

/-- At the beginning of a program. -/
def beginning (visible : List Token) : Scene where
  state := 0
  context := 0
  nodes := #[⟨0, #[]⟩]
  links := #[⟨none, none⟩]
  precedences := [0]
  recursions := []
  ahead := visible
  idle := 0

/-- The walk that parses a program, once it has entered the rule. -/
def programRun
    (tokens : TokenStream σ)
    (cache : PredictionCache) :
    Run σ :=
  ((Run.start tokens cache).addContext ⟨none, none⟩ 0).enterRule 0 0

/-- A new parser begins at the beginning. -/
theorem depicts_beginning
    {tokens : TokenStream σ}
    (sound : tokens.Sound) :
    (beginning tokens.visible).Depicts grammar.network plan tokens.visible
      (programRun tokens (PredictionCache.initial network)) where
  state := rfl
  context := rfl
  nodes := rfl
  links := rfl
  precedences := rfl
  recursions := rfl
  ahead := (Ahead.start sound (PredictionCache.initial network)).congr rfl rfl
  idle := Nat.le_refl 0
  remembers := .ofInitial rfl

/-- At the beginning of a program's expression. -/
def inProgram (visible : List Token) : Scene where
  state := 1
  context := 1
  nodes := #[⟨0, #[]⟩, ⟨1, #[]⟩]
  links := #[⟨none, none⟩, ⟨some 0, some 6⟩]
  precedences := [0, 0]
  recursions := [⟨some 0, some 6⟩]
  ahead := visible
  idle := 2

/-- The expression of a program begins in a new context. -/
theorem begins_inProgram (visible : List Token) :
    Begins (inProgram visible) 0 ⟨some 0, some 6⟩ where
  state := rfl
  node := rfl
  last := rfl
  linked := rfl
  isLink := rfl
  precedences := ⟨[0], rfl⟩
  recursions := ⟨[], rfl⟩
  idle := Nat.le_succ 2

/-- At the end of a program whose expression ended in another scene. -/
def behindProgram
    (between : Scene)
    (last : Token) :
    Scene where
  state := 3
  context := 0
  nodes :=
    ParseTree.addChild (ParseTree.addChild between.nodes 0 (.rule between.context)) 0 (.token last)
  links := between.links
  precedences := [0]
  recursions := []
  ahead := []
  idle := 1

/-- The expression of a program is reached. -/
theorem leads_inProgram (ahead : List Token) :
    Leads σ grammar plan visible 2 (beginning ahead) (inProgram ahead) := by
  have enters :
      Leads σ grammar plan visible 1 (beginning ahead)
        { beginning ahead with state := 6, idle := 1 } :=
    leads_pass rfl (Nat.zero_lt_succ 999) (by decide : Passes 0 6)
  have invokes := enters.trans
    (.callRecursive (lt_idleLimit (by dsimp only; omega)) (by dsimp only; decide)
      (rfl : (network.state 6).edges = [.call 1 1 0 7]) rfl rfl rfl)
  exact invokes

/-- Behind its expression a program ends with the end of the input. -/
theorem leads_behindProgram
    {expression : Expression}
    {ahead : List Token}
    {between : Scene}
    {last : Token}
    (isEnd : last.type = endOfInput)
    (arrives : Arrives (inProgram ahead) between ⟨some 0, some 6⟩ expression)
    (aheadBetween : between.ahead = [last]) :
    Leads σ grammar plan visible 5 between (behindProgram between last) := by
  have calm := arrives.idle_le
  have ends :=
    @leads_end σ _ visible between 0 [0] [] 0 6 7 last [] arrives.state (by omega)
      arrives.isLink arrives.precedences arrives.recursions aheadBetween
      (mem_loopCases_end (.inl rfl) (.inr (.inl isEnd))) rfl
  have closes := ends.trans
    (.token (lt_idleLimit (by dsimp only; omega)) (by dsimp only; decide) aheadBetween
      (by dsimp only; rw [isEnd]; rfl : _ = [Edge.atom 8 last.type]))
  have stops := closes.trans
    (leads_pass rfl (by dsimp only; omega) (by decide : Passes 8 3))
  exact stops

/-- The tokens of an expression that is grouped are parsed to a tree that shows it. -/
theorem parses_of_grouped
    {tokens : TokenStream σ}
    {expression : Expression}
    {last : Token}
    (sound : tokens.Sound)
    (isVisible : tokens.visible = expression.leaves ++ [last])
    (grouped : expression.Grouped)
    (isEnd : last.type = endOfInput) :
    ∃ after,
      outcome (parseRule grammar 0) (Run.start tokens (PredictionCache.initial network)) =
          (.ok 0, after) ∧
        ShowsProgram ⟨after.nodes, 0⟩ expression last := by
  have atLeast := expression.two_le_binding
  obtain ⟨count, between, reads, few, arrives, aheadBetween⟩ :=
    @leads_expression σ _ tokens.visible expression (inProgram tokens.visible) 0 _ last [] grouped
      (.inl rfl) (by omega) (.inr (.inl isEnd)) (begins_inProgram _) isVisible
  have leads :=
    ((leads_inProgram tokens.visible).trans reads).trans
      (leads_behindProgram isEnd arrives aheadBetween)
  obtain ⟨after, advances, depicts⟩ := leads _ (depicts_beginning sound)
  have isRoot : between.nodes[0]? = some ⟨0, #[]⟩ := arrives.keepsNodes 0 Nat.zero_lt_one
  have isFirst : after.links[0]? = some ⟨none, none⟩ := by
    rw [depicts.links]
    exact arrives.keepsLinks 0 Nat.zero_lt_one
  have ended : after.hasEnded grammar.network = true := by
    have isOuter : after.link 0 = ⟨none, none⟩ := by
      simp [Run.link, Array.getD_eq_getD_getElem?, isFirst]
    simp only [Run.hasEnded, depicts.state, depicts.context, behindProgram, isOuter]
    rfl
  have calm : after.idleSteps ≤ 1 := depicts.idle
  have parses :
      outcome (parseRule grammar 0) (Run.start tokens (PredictionCache.initial network)) =
        (.ok after.context, after.counted) :=
    advances.outcome_parseRule rfl (lt_idleLimit (by omega)) ended
  refine ⟨after.counted, ?_, between.context, ?_, ?_⟩
  · rw [parses, depicts.context]
    rfl
  · change after.nodes[0]? = _
    rw [depicts.nodes]
    exact getElem?_addChild_self (getElem?_addChild_self isRoot (.rule between.context))
      (.token last)
  · refine arrives.shows.congr (Nat.zero_le _) ?_
    intro number fromFirst _
    change after.nodes[number]? = _
    rw [depicts.nodes]
    simp only [inProgram, behindProgram] at fromFirst ⊢
    rw [getElem?_addChild_of_ne (by omega), getElem?_addChild_of_ne (by omega)]

/-- The end of the input, where it comes last only, tells how long a list is that may repeat it. -/
theorem eq_of_getElem?_min
    {read types : List Int}
    (notRead : endOfInput ∉ read)
    (notThere : endOfInput ∉ types)
    (agree :
      ∀ place ≤ read.length,
        (read ++ [endOfInput])[place]? = (types ++ [endOfInput])[min place types.length]?) :
    read = types := by
  rcases Nat.lt_trichotomy read.length types.length with shorter | same | longer
  · have atEnd := agree read.length (Nat.le_refl _)
    rw [Nat.min_eq_left (by omega), List.getElem?_concat_length,
      List.getElem?_append_left shorter] at atEnd
    exact absurd (List.mem_of_getElem? atEnd.symm) notThere
  · refine List.ext_getElem? fun place => ?_
    rcases Nat.lt_or_ge place read.length with before | behind
    · have here := agree place (by omega)
      rwa [Nat.min_eq_left (by omega), List.getElem?_append_left before,
        List.getElem?_append_left (by omega)] at here
    · rw [List.getElem?_eq_none behind, List.getElem?_eq_none (by omega)]
  · have atEnd := agree types.length (by omega)
    rw [Nat.min_self, List.getElem?_concat_length, List.getElem?_append_left longer] at atEnd
    exact absurd (List.mem_of_getElem? atEnd) notRead

/-- The last visible token ends the input, and no other does. -/
theorem ends_of_visible
    {stream : TokenStream σ}
    {tokens : List Token}
    {ending : Token}
    (sound : stream.Sound)
    (isVisible : stream.visible = tokens ++ [ending]) :
    ending.type = endOfInput ∧ endOfInput ∉ tokens.map Token.type := by
  obtain ⟨others, last, isVisible', isEnd, notEnd⟩ := sound.visible_eq_append_end
  obtain ⟨rfl, isLast⟩ := List.append_inj' (isVisible.symm.trans isVisible') rfl
  rw [List.singleton_inj] at isLast
  refine ⟨by simpa [isLast, Token.isEnd] using isEnd, fun member => ?_⟩
  obtain ⟨token, isToken, isType⟩ := List.mem_map.mp member
  have isNoEnd := notEnd token isToken
  simp [Token.isEnd, isType] at isNoEnd

/-- What was parsed to a tree is a sentence. -/
theorem sentence_of_parses
    {stream : TokenStream σ}
    {cache : PredictionCache}
    {root : Nat}
    {after : Run σ}
    {tokens : List Token}
    {ending : Token}
    (sound : stream.Sound)
    (isVisible : stream.visible = tokens ++ [ending])
    (parses : outcome (parseRule grammar 0) (Run.start stream cache) = (.ok root, after)) :
    Sentence (tokens.map Token.type) := by
  obtain ⟨parts, _, _, complete, inOrder⟩ :=
    Ends.derivation_of_parseRule
      (Network.compilerShaped_of_checkShape (by decide : network.checkShape = true))
      (coherent_of_ofData ofData_grammar).1 sound (by decide) parses
  obtain ⟨isEnd, notEnd⟩ := ends_of_visible sound isVisible
  obtain ⟨whole, sentence, isRead⟩ : Phrase.program.Covers (typesOf parts) :=
    stands_of_isComplete _ complete
  have isLength : (Derivation.leavesOfAll parts).length = whole.length + 1 := by
    simpa [typesOf] using congrArg List.length isRead
  have isSame : whole = tokens.map Token.type := by
    refine eq_of_getElem?_min sentence.endOfInput_not_mem notEnd fun place within => ?_
    rw [← isRead, typesOf, List.getElem?_map, inOrder place (by omega), ← List.getElem?_map,
      isVisible, List.map_append, List.map_singleton, isEnd]
    simp
  exact isSame ▸ sentence

/-- What parsing a program comes to for a new parser. -/
theorem invoke_prog
    {source : σ}
    {result : Except Failure Nat}
    {after : Run σ}
    (errorFree : (TokenStream.ofSource source).ErrorFree)
    (parses :
      outcome (parseRule grammar 0)
          (Run.start (TokenStream.ofSource source) (PredictionCache.initial network)) =
        (result, after)) :
    ((Parser.ofStream grammar (TokenStream.ofSource source)).invoke "prog").1 =
      resultOf [] after.nodes result := by
  have holds := Run.holds_start (.ofSource source) (PredictionCache.holds_initial network)
  have continues := holds.continues_parseRule grammar 0
  rw [parses] at continues
  have isFirst : grammar.ruleNames.findIdx? (· == "prog") = some 0 := by cbv
  have stillFree :=
    (errorFree.continues (TokenStream.Continues.nextVisible _ 0)).continues continues
  simp only [Parser.invoke, Parser.ofStream, isFirst]
  exact congrArg Prod.fst (@invokeNumber_eq σ _ (Parser.ofStream grammar _) 0 _ _ parses stillFree)

/--
The parser of arithmetic takes exactly the sentences, and the tree that it gives for one shows the
only expression over its tokens that is grouped as operators bind: `'*'` tighter than `'+'`, and
both to the left.
-/
theorem invoke_prog_iff
    {grammar : ParserGrammar}
    {source : σ}
    {parser : Parser σ}
    {tokens : List Token}
    {ending : Token}
    (isGrammar : ParserGrammar.ofData "ExprParser" Arithmetic.parser = .ok grammar)
    (isParser : Parser.create grammar (TokenStream.ofSource source) = .ok parser)
    (errorFree : (TokenStream.ofSource source).ErrorFree)
    (isVisible : (TokenStream.ofSource source).visible = tokens ++ [ending]) :
    ((∃ tree, (parser.invoke "prog").1 = .ok tree) ↔ Sentence (tokens.map Token.type)) ∧
      ∀ tree,
        (parser.invoke "prog").1 = .ok tree →
          ∃ expression,
            ShowsProgram tree expression ending ∧ ending.type = endOfInput ∧
              expression.Grouped ∧ expression.leaves = tokens ∧
                ∀ other : Expression,
                  other.Grouped → other.leaves = tokens → other = expression := by
  obtain rfl : Arithmetic.grammar = grammar := by
    rw [ofData_grammar, Except.ok.injEq] at isGrammar
    exact isGrammar
  have isNew : Parser.ofStream Arithmetic.grammar (TokenStream.ofSource source) = parser :=
    Except.ok.inj isParser
  have sound : (TokenStream.ofSource source).Sound := .ofSource source
  have isEnd := (ends_of_visible sound isVisible).1
  rw [← isNew]
  have succeeds {expression : Expression} (grouped : expression.Grouped)
      (leaves : expression.leaves = tokens) :
      ∃ tree,
        ((Parser.ofStream Arithmetic.grammar (TokenStream.ofSource source)).invoke "prog").1 =
            .ok tree ∧
          ShowsProgram tree expression ending := by
    rw [← leaves] at isVisible
    obtain ⟨after, parses, shows⟩ := parses_of_grouped sound isVisible grouped isEnd
    exact ⟨_, invoke_prog errorFree parses, shows⟩
  have derives {tree : ParseTree}
      (parsed :
        ((Parser.ofStream Arithmetic.grammar (TokenStream.ofSource source)).invoke "prog").1 =
          .ok tree) :
      Sentence (tokens.map Token.type) := by
    cases parses :
      outcome (parseRule Arithmetic.grammar 0)
        (Run.start (TokenStream.ofSource source) (PredictionCache.initial network)) with
    | mk result after =>
        rw [invoke_prog errorFree parses] at parsed
        rcases result with (_ | _) | root
        · cases parsed
        · cases parsed
        · exact sentence_of_parses sound isVisible parses
  refine ⟨⟨fun ⟨tree, parsed⟩ => derives parsed, fun sentence => ?_⟩, fun tree parsed => ?_⟩
  · obtain ⟨expression, grouped, leaves⟩ := sentence.exists_expression rfl
    obtain ⟨tree, parsed, _⟩ := succeeds grouped leaves
    exact ⟨tree, parsed⟩
  · obtain ⟨expression, grouped, leaves⟩ := (derives parsed).exists_expression rfl
    have isShown {other : Expression} (otherGrouped : other.Grouped)
        (otherLeaves : other.leaves = tokens) :
        ShowsProgram tree other ending := by
      obtain ⟨_, parsedToo, shows⟩ := succeeds otherGrouped otherLeaves
      rw [parsed, Except.ok.injEq] at parsedToo
      exact parsedToo ▸ shows
    exact ⟨expression, isShown grouped leaves, isEnd, grouped, leaves,
      fun other otherGrouped otherLeaves =>
        (isShown otherGrouped otherLeaves).unique (isShown grouped leaves)⟩

namespace Mixed

/-- The tokens of `1*2+3*4` before they are taken. -/
def source : ListedTokens :=
  .ofList
    [(integer, "1", 0), (star, "*", 0), (integer, "2", 0), (plus, "+", 0), (integer, "3", 0),
      (star, "*", 0), (integer, "4", 0)]

/-- The token at an offset of `1*2+3*4`, where all tokens are one character long. -/
def tokenAt
    (offset : Nat)
    (type : Int)
    (text : String) :
    Token :=
  ⟨type, text, 0, offset, offset + 1, 1, offset, offset⟩

/-- The sum of two products that `1*2+3*4` stands for. -/
def expression : Expression :=
  .binary
    (.binary (.number (tokenAt 0 integer "1")) (tokenAt 1 star "*")
      (.number (tokenAt 2 integer "2")))
    (tokenAt 3 plus "+")
    (.binary (.number (tokenAt 4 integer "3")) (tokenAt 5 star "*")
      (.number (tokenAt 6 integer "4")))

/-- The end of `1*2+3*4`. -/
def ending : Token :=
  ⟨endOfInput, "<EOF>", 0, 7, 7, 1, 7, 7⟩

/-- The parser of arithmetic for `1*2+3*4`. -/
def parser : Parser ListedTokens :=
  Parser.ofStream grammar (TokenStream.ofSource source)

set_option maxRecDepth 20000 in
/-- The visible tokens of `1*2+3*4` are those of the expression, and the end. -/
theorem visible_source :
    (TokenStream.ofSource source).visible = expression.leaves ++ [ending] := by
  cbv

/-- In the tree of `1*2+3*4` the operands of `'+'` are products. -/
theorem invoke_mixed :
    ParserGrammar.ofData "ExprParser" Arithmetic.parser = .ok grammar ∧
      Parser.create grammar (TokenStream.ofSource source) = .ok parser ∧
      (TokenStream.ofSource source).ErrorFree ∧
      (TokenStream.ofSource source).visible = expression.leaves ++ [ending] ∧
      ∃ tree, (parser.invoke "prog").1 = .ok tree ∧ ShowsProgram tree expression ending := by
  obtain ⟨succeeds, shows⟩ :=
    @invoke_prog_iff ListedTokens _ grammar source parser _ _ ofData_grammar rfl
      (TokenStream.errorFree_listed _) visible_source
  obtain ⟨tree, parsed⟩ := succeeds.mpr
    (.binary (.binary .number (.inl rfl) .number) (.inr rfl) (.binary .number (.inl rfl) .number))
  obtain ⟨shown, showsTree, _, _, _, unique⟩ := shows tree parsed
  have isShown : expression = shown := unique expression (by decide) rfl
  exact ⟨ofData_grammar, rfl, TokenStream.errorFree_listed _, visible_source, tree, parsed,
    isShown ▸ showsTree⟩

end Mixed

end Arithmetic

end GrammarService
