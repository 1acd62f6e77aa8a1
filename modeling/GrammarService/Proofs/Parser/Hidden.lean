import GrammarService.Proofs.Parser.Sight
import GrammarService.Proofs.Prediction.Hidden

namespace GrammarService

/-!
# Hidden tokens never influence a parse

Two walks over streams that look the same stay abreast: they have built trees that look the same,
they have learned the same from predictions, and they come to the same. What they do not share is
where they are in their streams, and what they quote where no alternative is viable, since a quote
has the hidden tokens in it.
-/

/-- Where no alternative is viable the tokens that were looked at are quoted. -/
def SyntaxError.noViableAlternative
    (line column : Nat)
    (quoted : List Token) :
    SyntaxError where
  line := line
  column := column
  message :=
    let text := String.join (quoted.map Token.text)
    s!"no viable alternative at input '{Text.escapeBreaks text}'"

namespace Parser

variable {σ τ : Type} [TokenSource σ] [TokenSource τ] {α β : Type} {look : Token → Token}
  {stream : TokenStream σ} {other : TokenStream τ} {run : Run σ} {twin : Run τ}

/-- Errors over two streams that only differ in the hidden tokens they quote, if at all. -/
inductive ErrorAlike
    (look : Token → Token)
    (stream : TokenStream σ)
    (other : TokenStream τ) :
    SyntaxError → SyntaxError → Prop
  | same (error : SyntaxError) : ErrorAlike look stream other error error
  | noViableAlternative
      {line column first last otherFirst otherLast : Nat}
      (seen :
        ((stream.quoted first last).filter Token.isVisible).map look =
          ((other.quoted otherFirst otherLast).filter Token.isVisible).map look) :
      ErrorAlike look stream other
        (.noViableAlternative line column (stream.quoted first last))
        (.noViableAlternative line column (other.quoted otherFirst otherLast))

/-- What steps over two streams come to if hidden tokens do not matter. -/
inductive ResultAlike
    (look : Token → Token)
    (stream : TokenStream σ)
    (other : TokenStream τ) :
    Except Failure α → Except Failure α → Prop
  | ok (value : α) : ResultAlike look stream other (.ok value) (.ok value)
  | fault (fault : Fault) :
      ResultAlike look stream other (.error (.fault fault)) (.error (.fault fault))
  | syntaxError
      {error otherError : SyntaxError}
      (alike : ErrorAlike look stream other error otherError) :
      ResultAlike look stream other (.error (.syntaxError error))
        (.error (.syntaxError otherError))

/-- Two walks over two streams are in the same state, as far as a parser sees. -/
structure Run.Abreast
    (look : Token → Token)
    (stream : TokenStream σ)
    (other : TokenStream τ)
    (run : Run σ)
    (twin : Run τ) :
    Prop where
  taken : stream.Continues run.tokens
  otherTaken : other.Continues twin.tokens
  places : run.tokens.Abreast look twin.tokens run.position twin.position
  blind : run.blind look = twin.blind look

/-- A change of a walk that neither looks at its stream nor moves along it. -/
structure Unseeing
    (look : Token → Token)
    (change : Run σ → Run σ)
    (shown : Run Unit → Run Unit) :
    Prop where
  tokens : ∀ run, (change run).tokens = run.tokens
  position : ∀ run, (change run).position = run.position
  blind : ∀ run, (change run).blind look = shown (run.blind look)

namespace Unseeing

omit [TokenSource σ]

theorem counted : Unseeing look (Run.counted : Run σ → Run σ) Run.counted :=
  ⟨fun _ => rfl, fun _ => rfl, fun _ => rfl⟩

/-- Going to another state of the network. -/
theorem moved (state : Nat) :
    Unseeing look (fun run : Run σ => { run with state := state })
      (fun run => { run with state := state }) :=
  ⟨fun _ => rfl, fun _ => rfl, fun _ => rfl⟩

/-- Going back to another context. -/
theorem returned (context : Nat) :
    Unseeing look (fun run : Run σ => { run with context := context })
      (fun run => { run with context := context }) :=
  ⟨fun _ => rfl, fun _ => rfl, fun _ => rfl⟩

theorem inRound
    (network : Network)
    (outer : Link)
    (state : Network.State) :
    Unseeing look (fun run : Run σ => run.inRound network outer state)
      (fun run => run.inRound network outer state) :=
  ⟨fun _ => rfl, fun _ => rfl, fun run => run.blind_inRound network outer state⟩

theorem invoking
    (network : Network)
    (caller target rule : Nat)
    (precedence : Int) :
    Unseeing look (fun run : Run σ => run.invoking network caller target rule precedence)
      (fun run => run.invoking network caller target rule precedence) := by
  refine ⟨fun run => ?_, fun run => ?_,
    fun run => run.blind_invoking network caller target rule precedence⟩
  all_goals
    simp only [Run.invoking, Run.enterRule_eq]
    split <;> rfl

theorem leaving
    (recursions : List Link)
    (parent : Option Nat) :
    Unseeing look
      (fun run : Run σ => { run with recursions := recursions }.leaveRecursion parent)
      (fun run => { run with recursions := recursions }.leaveRecursion parent) := by
  refine ⟨fun run => ?_, fun run => ?_,
    fun run => Run.blind_leaveRecursion { run with recursions := recursions } parent⟩
  all_goals cases parent <;> rfl

theorem begun
    [TokenSource σ]
    (network : Network)
    (rule : Nat) :
    Unseeing look (fun run : Run σ => run.begun network rule)
      (fun run => run.begun network rule) := by
  refine ⟨fun run => run.tokens_begun network rule, fun run => ?_,
    fun run => run.blind_begun network rule⟩
  simp only [Run.begun, Run.enterRule_eq]
  split <;> rfl

end Unseeing

namespace Run.Abreast

section Same

variable (abreast : Run.Abreast look stream other run twin)

include abreast

/-- Whatever does not need the stream is the same for both walks. -/
theorem view_eq (view : Run Unit → α) : view (run.blind look) = view (twin.blind look) :=
  congrArg view abreast.blind

theorem state_eq : run.state = twin.state :=
  abreast.view_eq Run.state

theorem context_eq : run.context = twin.context :=
  abreast.view_eq Run.context

theorem recursions_eq : run.recursions = twin.recursions :=
  abreast.view_eq Run.recursions

theorem precedence_eq : run.precedence = twin.precedence :=
  abreast.view_eq Run.precedence

theorem cache_eq : run.cache = twin.cache :=
  abreast.view_eq Run.cache

theorem idleSteps_eq : run.idleSteps = twin.idleSteps :=
  abreast.view_eq Run.idleSteps

theorem link_eq (context : Nat) : run.link context = twin.link context :=
  abreast.view_eq fun shown => shown.link context

theorem ruleOf_eq (context : Nat) : run.ruleOf context = twin.ruleOf context := by
  rw [← run.ruleOf_blind look, abreast.blind, twin.ruleOf_blind look]

theorem returnStates_eq (network : Network) :
    run.returnStates network = twin.returnStates network := by
  rw [← run.returnStates_blind look, abreast.blind, twin.returnStates_blind look]

theorem expectedAt_eq
    (network : Network)
    (state : Nat) :
    run.expectedAt network state = twin.expectedAt network state := by
  rw [← run.expectedAt_blind look, abreast.blind, twin.expectedAt_blind look]

theorem expected_eq (network : Network) : run.expected network = twin.expected network := by
  rw [Run.expected, Run.expected, abreast.state_eq, abreast.expectedAt_eq]

/-- The current tokens look the same. -/
theorem look_current : look run.current = look twin.current :=
  abreast.places.look_eq

theorem type_current (shows : Token.Shows look) : run.current.type = twin.current.type :=
  shows.type_eq abreast.look_current

theorem isEnd_current (shows : Token.Shows look) : run.current.isEnd = twin.current.isEnd :=
  shows.isEnd_eq abreast.look_current

/-- The trees that were built look the same. -/
theorem seen_nodes :
    run.nodes.map (ParseTree.RuleNode.seen look) =
      twin.nodes.map (ParseTree.RuleNode.seen look) :=
  abreast.view_eq Run.nodes

/-- The walks stay abreast when they are changed in the same way. -/
theorem change
    {change : Run σ → Run σ}
    {otherChange : Run τ → Run τ}
    {shown : Run Unit → Run Unit}
    (unseeing : Unseeing look change shown)
    (otherUnseeing : Unseeing look otherChange shown) :
    (change run).Abreast look stream other (otherChange twin) where
  taken := by
    rw [unseeing.tokens]
    exact abreast.taken
  otherTaken := by
    rw [otherUnseeing.tokens]
    exact abreast.otherTaken
  places := by
    rw [unseeing.tokens, otherUnseeing.tokens, unseeing.position, otherUnseeing.position]
    exact abreast.places
  blind := by rw [unseeing.blind, otherUnseeing.blind, abreast.blind]

/-- The walks stay abreast when they take tokens and learn the same. -/
theorem within
    {tokens : TokenStream σ}
    {otherTokens : TokenStream τ}
    (continues : run.tokens.Continues tokens)
    (otherContinues : twin.tokens.Continues otherTokens)
    (cache : PredictionCache) :
    (run.within tokens cache).Abreast look stream other (twin.within otherTokens cache) where
  taken := abreast.taken.trans continues
  otherTaken := abreast.otherTaken.trans otherContinues
  places := abreast.places.continues continues otherContinues
  blind := abreast.view_eq fun shown => { shown with cache := cache }

end Same

/-- Walks that are abreast are so in either order. -/
theorem symm (abreast : Run.Abreast look stream other run twin) :
    Run.Abreast look other stream twin run where
  taken := abreast.otherTaken
  otherTaken := abreast.taken
  places := by
    obtain ⟨seen, count, stands, otherStands⟩ := abreast.places
    exact ⟨seen.symm, count, otherStands, stands⟩
  blind := abreast.blind.symm

/-- Walks over new streams that look the same begin abreast. -/
theorem start
    (sound : stream.Sound)
    (otherSound : other.Sound)
    (alike : stream.seen look = other.seen look)
    (cache : PredictionCache) :
    (Run.start stream cache).Abreast look stream other (Run.start other cache) where
  taken := .nextVisible stream 0
  otherTaken := .nextVisible other 0
  places := by
    refine ⟨?_, 0, .first sound, .first otherSound⟩
    exact (TokenStream.Continues.nextVisible stream 0).seen.trans
      (alike.trans (TokenStream.Continues.nextVisible other 0).seen.symm)
  blind := rfl

end Run.Abreast

omit [TokenSource τ] in
/-- Where no alternative is viable the tokens through the offending one are quoted. -/
theorem outcome_rejectAlternatives
    {least count offending : Nat}
    (first : run.tokens.StandsAt least run.position)
    (last : run.tokens.StandsAt count offending)
    (le : run.position ≤ offending) :
    outcome (rejectAlternatives offending : Walk σ α) run =
      (.error
        (.syntaxError
          (if run.current.isEnd then
            SyntaxError.atToken (run.tokens.token offending)
              s!"no viable alternative at input '{Text.escapeBreaks Token.endText}'"
          else
            .noViableAlternative (run.tokens.token offending).line
              (run.tokens.token offending).column
              (run.tokens.quoted run.position offending))),
        run) := by
  have nothingTaken :
      run.tokens.text run.position offending =
        ((run.tokens.text run.position offending).1, run.tokens) :=
    TokenStream.text_of_taken (.refl _) first.taken last.taken
  simp only [rejectAlternatives, outcome_bind, outcome_get, outcome_set, outcome_reject]
  rw [nothingTaken, last.text_eq le, Run.current]
  split <;> rfl

/-- Go on behind the state that invoked a rule. -/
def goBehind
    (network : Network)
    (caller : Option Nat) :
    Walk σ Unit := do
  let follow ← require (caller.bind network.followOf?) .notInvoked
  modify fun run => { run with state := follow }

omit [TokenSource σ] in
/-- A rule is left by going back to its invocation, and on behind that. -/
theorem outcome_leaveRule
    (network : Network)
    (run : Run σ) :
    outcome (leaveRule network) run =
      if (network.state run.state).rule.any network.isLeftRecursive then
        match run.recursions with
        | [] => (.error (.fault .noRecursionToLeave), run)
        | outer :: recursions =>
            outcome (goBehind network outer.caller)
              ({ run with recursions := recursions }.leaveRecursion outer.parent)
      else
        match (run.link run.context).parent with
        | none => (.error (.fault .noInvocationToLeave), run)
        | some parent =>
            outcome (goBehind network (run.link run.context).caller)
              { run with context := parent } := by
  rw [leaveRule, outcome_bind, outcome_get]
  dsimp only
  split
  · cases run.recursions <;> rfl
  · cases (run.link run.context).parent <;> rfl

/-- Two steps come to the same, and the walks are abreast then. -/
structure Agrees
    (look : Token → Token)
    (stream : TokenStream σ)
    (other : TokenStream τ)
    (step : Walk σ α)
    (otherStep : Walk τ α)
    (run : Run σ)
    (twin : Run τ) :
    Prop where
  result :
    ResultAlike look stream other (outcome step run).1 (outcome otherStep twin).1
  abreast :
    (outcome step run).2.Abreast look stream other (outcome otherStep twin).2

namespace Agrees

section Combining

variable (abreast : Run.Abreast look stream other run twin)

include abreast in
theorem pure (value : α) :
    Agrees look stream other (Pure.pure value) (Pure.pure value) run twin :=
  ⟨.ok value, abreast⟩

include abreast in
theorem fail (fault : Fault) :
    Agrees look stream other (Parser.fail fault : Walk σ α) (Parser.fail fault) run twin :=
  ⟨.fault fault, abreast⟩

include abreast in
/-- The same error at tokens that look the same. -/
theorem reject
    (shows : Token.Shows look)
    {token otherToken : Token}
    (alike : look token = look otherToken)
    {message otherMessage : String}
    (sameMessage : message = otherMessage) :
    Agrees look stream other (Parser.reject token message : Walk σ α)
      (Parser.reject otherToken otherMessage) run twin := by
  refine ⟨?_, abreast⟩
  rw [outcome_reject, outcome_reject, shows.atToken_eq alike, sameMessage]
  exact .syntaxError (.same _)

include abreast in
/-- The same change of where the walks are. -/
theorem change
    {change : Run σ → Run σ}
    {otherChange : Run τ → Run τ}
    {shown : Run Unit → Run Unit}
    (unseeing : Unseeing look change shown)
    (otherUnseeing : Unseeing look otherChange shown) :
    Agrees look stream other (modify change : Walk σ Unit) (modify otherChange) run twin :=
  ⟨.ok (), abreast.change unseeing otherUnseeing⟩

include abreast in
/-- What follows a required value agrees if it does where the value is there. -/
theorem requiring
    {value? : Option α}
    {fault : Fault}
    {next : α → Walk σ β}
    {otherNext : α → Walk τ β}
    (rest :
      ∀ value, value? = some value →
        Agrees look stream other (next value) (otherNext value) run twin) :
    Agrees look stream other (Parser.require value? fault >>= next)
      (Parser.require value? fault >>= otherNext) run twin := by
  cases value? with
  | none => exact .fail abreast fault
  | some value => exact rest value rfl

/-- Steps that agree one after the other agree together. -/
theorem bind
    {step : Walk σ α}
    {otherStep : Walk τ α}
    {next : α → Walk σ β}
    {otherNext : α → Walk τ β}
    (first : Agrees look stream other step otherStep run twin)
    (second :
      ∀ {run : Run σ} {twin : Run τ} (value : α),
        Run.Abreast look stream other run twin →
          Agrees look stream other (next value) (otherNext value) run twin) :
    Agrees look stream other (step >>= next) (otherStep >>= otherNext) run twin := by
  obtain ⟨result, abreast⟩ := first
  cases isFirst : outcome step run with
  | mk first between =>
      cases isTwin : outcome otherStep twin with
      | mk otherFirst otherBetween =>
          rw [isFirst, isTwin] at result abreast
          -- Both fail, or both go on with the same value.
          cases result with
          | ok value =>
              have rest := second value abreast
              constructor <;> rw [outcome_bind, outcome_bind, isFirst, isTwin]
              · exact rest.result
              · exact rest.abreast
          | fault fault =>
              constructor <;> rw [outcome_bind, outcome_bind, isFirst, isTwin]
              · exact .fault fault
              · exact abreast
          | syntaxError alike =>
              constructor <;> rw [outcome_bind, outcome_bind, isFirst, isTwin]
              · exact .syntaxError alike
              · exact abreast

/-- Steps behind two others that succeeded agree if they do where these have led. -/
theorem after
    {γ δ : Type}
    {step : Walk σ γ}
    {otherStep : Walk τ δ}
    {next : γ → Walk σ α}
    {otherNext : δ → Walk τ α}
    {value : γ}
    {otherValue : δ}
    {between : Run σ}
    {otherBetween : Run τ}
    (isFirst : outcome step run = (.ok value, between))
    (isTwin : outcome otherStep twin = (.ok otherValue, otherBetween))
    (rest :
      Agrees look stream other (next value) (otherNext otherValue) between otherBetween) :
    Agrees look stream other (step >>= next) (otherStep >>= otherNext) run twin := by
  constructor <;> rw [outcome_bind, outcome_bind, isFirst, isTwin]
  · exact rest.result
  · exact rest.abreast

/-- Steps agree if others do that they come down to. -/
theorem congr
    {step otherStep : _}
    {step' : Walk σ α}
    {otherStep' : Walk τ α}
    {run' : Run σ}
    {twin' : Run τ}
    (isRun : outcome step run = outcome step' run')
    (isTwin : outcome otherStep twin = outcome otherStep' twin')
    (agrees : Agrees look stream other step' otherStep' run' twin') :
    Agrees look stream other step otherStep run twin :=
  ⟨by rw [isRun, isTwin]; exact agrees.result, by rw [isRun, isTwin]; exact agrees.abreast⟩

/-- Looking at the walks agrees with what comes behind. -/
theorem get
    {next : Run σ → Walk σ α}
    {otherNext : Run τ → Walk τ α}
    (rest : Agrees look stream other (next run) (otherNext twin) run twin) :
    Agrees look stream other (MonadState.get >>= next) (MonadState.get >>= otherNext) run twin :=
  after (outcome_get run) (outcome_get twin) rest

end Combining

section Steps

variable (shows : Token.Shows look) (abreast : Run.Abreast look stream other run twin)
  (grammar : ParserGrammar)

include shows abreast

/-- The next visible tokens have the same type. -/
theorem peekType (notEnd : run.current.isEnd = false) :
    Agrees look stream other Parser.peekType Parser.peekType run twin := by
  have behind := abreast.places.next shows notEnd
  have isRun :
      ∀ {ρ : Type} [TokenSource ρ] (run : Run ρ),
        outcome Parser.peekType run =
          (.ok ((run.tokens.nextVisible (run.position + 1)).2.token
              (run.tokens.nextVisible (run.position + 1)).1).type,
            run.within (run.tokens.nextVisible (run.position + 1)).2 run.cache) :=
    fun _ => rfl
  constructor <;> rw [isRun, isRun]
  · rw [shows.type_eq behind.look_eq]
    exact .ok _
  · rw [abreast.cache_eq]
    exact abreast.within (.nextVisible _ _) (.nextVisible _ _) twin.cache

theorem rejectMismatch :
    Agrees look stream other (Parser.rejectMismatch grammar : Walk σ α)
      (Parser.rejectMismatch grammar) run twin := by
  refine .get (.reject abreast shows abreast.look_current ?_)
  rw [shows.quoted_eq abreast.look_current, abreast.expected_eq]

theorem rejectExtraneous :
    Agrees look stream other (Parser.rejectExtraneous grammar : Walk σ α)
      (Parser.rejectExtraneous grammar) run twin := by
  refine .get (.reject abreast shows abreast.look_current ?_)
  rw [shows.quoted_eq abreast.look_current, abreast.expected_eq]

theorem rejectMissing :
    Agrees look stream other (Parser.rejectMissing grammar : Walk σ α)
      (Parser.rejectMissing grammar) run twin := by
  refine .get (.reject abreast shows abreast.look_current ?_)
  rw [shows.quoted_eq abreast.look_current, abreast.expected_eq]

/-- A token that is no extra one is rejected in the same way. -/
theorem rejectUnexpected (current : Int) :
    let rejects (ρ : Type) [TokenSource ρ] : Walk ρ α := do
      let run ← MonadState.get
      match (grammar.network.state run.state).edges.head? with
      | some first =>
          if (run.expectedAt grammar.network first.target).contains current then
            Parser.rejectMissing grammar
          else
            Parser.rejectMismatch grammar
      | none => Parser.rejectMismatch grammar
    Agrees look stream other (rejects σ) (rejects τ) run twin := by
  refine .get ?_
  rw [abreast.state_eq]
  cases (grammar.network.state twin.state).edges.head? with
  | none => exact rejectMismatch shows abreast grammar
  | some first =>
      dsimp only
      rw [abreast.expectedAt_eq]
      split
      · exact rejectMissing shows abreast grammar
      · exact rejectMismatch shows abreast grammar

theorem rejectCurrent :
    Agrees look stream other (Parser.rejectCurrent grammar : Walk σ α)
      (Parser.rejectCurrent grammar) run twin := by
  refine .get ?_
  dsimp only
  rw [abreast.type_current shows]
  split
  · rename_i notEnd
    have goesOn : run.current.isEnd = false := by
      rw [abreast.isEnd_current shows]
      simpa [Token.isEnd] using notEnd
    refine (peekType shows abreast goesOn).bind fun after abreast => .get ?_
    rw [abreast.expected_eq]
    split
    · have rejects :
          Agrees look stream other (Parser.rejectExtraneous grammar : Walk σ PUnit)
            (Parser.rejectExtraneous grammar) _ _ :=
        rejectExtraneous shows abreast grammar
      exact rejects.bind fun _ abreast => rejectUnexpected shows abreast grammar _
    · exact rejectUnexpected shows abreast grammar _
  · exact rejectUnexpected shows abreast grammar _

/-- Consuming the current tokens, which look the same. -/
theorem consume : Agrees look stream other Parser.consume Parser.consume run twin := by
  refine ⟨.ok (), ?_⟩
  rw [outcome_consume, outcome_consume]
  have sameBlind : run.consumed.blind look = twin.consumed.blind look := by
    rw [Run.blind_consumed, Run.blind_consumed, abreast.blind, abreast.context_eq,
      abreast.look_current]
  cases isEnd : run.current.isEnd with
  | true =>
      have otherEnd := abreast.isEnd_current shows ▸ isEnd
      have stays :
          ∀ {ρ : Type} [TokenSource ρ] {run : Run ρ},
            run.current.isEnd = true →
              run.consumed.tokens = run.tokens ∧ run.consumed.position = run.position := by
        intro ρ _ run isEnd
        simp only [Run.consumed, isEnd, if_true, and_self]
      obtain ⟨sameTokens, samePosition⟩ := stays isEnd
      obtain ⟨otherTokens, otherPosition⟩ := stays otherEnd
      refine ⟨?_, ?_, ?_, sameBlind⟩
      · rw [sameTokens]
        exact abreast.taken
      · rw [otherTokens]
        exact abreast.otherTaken
      · rw [sameTokens, otherTokens, samePosition, otherPosition]
        exact abreast.places
  | false =>
      have otherNotEnd := abreast.isEnd_current shows ▸ isEnd
      have moves :
          ∀ {ρ : Type} [TokenSource ρ] {run : Run ρ},
            run.current.isEnd = false →
              run.consumed.tokens = (run.tokens.nextVisible (run.position + 1)).2 ∧
                run.consumed.position = (run.tokens.nextVisible (run.position + 1)).1 := by
        intro ρ _ run notEnd
        simp only [Run.consumed, notEnd, Bool.false_eq_true, if_false, and_self]
      obtain ⟨nextTokens, nextPosition⟩ := moves isEnd
      obtain ⟨otherTokens, otherPosition⟩ := moves otherNotEnd
      refine ⟨?_, ?_, ?_, sameBlind⟩
      · rw [nextTokens]
        exact abreast.taken.trans (.nextVisible _ _)
      · rw [otherTokens]
        exact abreast.otherTaken.trans (.nextVisible _ _)
      · rw [nextTokens, otherTokens, nextPosition, otherPosition]
        exact abreast.places.next shows isEnd

theorem consumeAny :
    Agrees look stream other (Parser.consumeAny grammar) (Parser.consumeAny grammar) run
      twin := by
  refine .get ?_
  rw [abreast.type_current shows]
  split
  · exact rejectCurrent shows abreast grammar
  · exact consume shows abreast

theorem checkCurrent :
    Agrees look stream other (Parser.checkCurrent grammar) (Parser.checkCurrent grammar) run
      twin := by
  refine .get ?_
  dsimp only
  rw [abreast.state_eq, abreast.type_current shows, abreast.isEnd_current shows]
  split
  · exact .pure abreast ()
  · split
    · split
      · rename_i notEnd
        have goesOn : run.current.isEnd = false := by
          rw [abreast.isEnd_current shows]
          simpa using notEnd
        refine (peekType shows abreast goesOn).bind fun after abreast => ?_
        split
        · have rejects :
              Agrees look stream other (Parser.rejectExtraneous grammar : Walk σ PUnit)
                (Parser.rejectExtraneous grammar) _ _ :=
            rejectExtraneous shows abreast grammar
          exact rejects.bind fun _ abreast => rejectMismatch shows abreast grammar
        · exact rejectMismatch shows abreast grammar
      · exact rejectMismatch shows abreast grammar
    · split
      · exact rejectExtraneous shows abreast grammar
      · exact .pure abreast ()

/-- No alternative is viable: the tokens are rejected in the same way, but for hidden tokens. -/
theorem rejectAlternatives
    {offending otherOffending : Nat}
    (le : run.position ≤ offending)
    (places : run.tokens.Abreast look twin.tokens offending otherOffending) :
    Agrees look stream other (Parser.rejectAlternatives offending : Walk σ α)
      (Parser.rejectAlternatives otherOffending) run twin := by
  obtain ⟨otherLe, sameQuoted⟩ := abreast.places.seen_quoted shows places le
  obtain ⟨least, first, otherFirst⟩ := abreast.places.stands
  obtain ⟨count, last, otherLast⟩ := places.stands
  constructor <;>
    rw [outcome_rejectAlternatives first last le,
      outcome_rejectAlternatives otherFirst otherLast otherLe]
  · rw [abreast.isEnd_current shows]
    split
    · rw [shows.atToken_eq places.look_eq]
      exact .syntaxError (.same _)
    · rw [abreast.taken.quoted, abreast.otherTaken.quoted] at *
      have sameLine : (run.tokens.token offending).line = (twin.tokens.token otherOffending).line := by
        rw [← shows.line, places.look_eq, shows.line]
      have sameColumn :
          (run.tokens.token offending).column = (twin.tokens.token otherOffending).column := by
        rw [← shows.column, places.look_eq, shows.column]
      rw [sameLine, sameColumn]
      exact .syntaxError (.noViableAlternative sameQuoted)
  · exact abreast

/-- What predictions come to that ended in the same way. -/
theorem conclude
    {result otherResult : Prediction.Outcome}
    (alike :
      Prediction.Outcome.Alike look run.tokens twin.tokens run.position result otherResult) :
    let concludes (ρ : Type) [TokenSource ρ] (result : Prediction.Outcome) : Walk ρ Nat :=
      match result with
      | .predicted alternative => Pure.pure alternative
      | .noViableAlternative offending => Parser.rejectAlternatives offending
      | .needsFullContext => Parser.fail .unsettled
    Agrees look stream other (concludes σ result) (concludes τ otherResult) run twin := by
  cases alike with
  | predicted alternative => exact .pure abreast alternative
  | noViableAlternative le places => exact rejectAlternatives shows abreast le places
  | needsFullContext => exact .fail abreast .unsettled

/-- What follows a remembered prediction agrees if it does however the prediction ends. -/
theorem bindRemembered
    (network : Network)
    (decision : Nat)
    {next : Prediction.Outcome → Walk σ α}
    {otherNext : Prediction.Outcome → Walk τ α}
    (rest :
      ∀ {run : Run σ} {twin : Run τ} {result otherResult : Prediction.Outcome},
        Run.Abreast look stream other run twin →
          Prediction.Outcome.Alike look run.tokens twin.tokens run.position result
              otherResult →
            Agrees look stream other (next result) (otherNext otherResult) run twin) :
    Agrees look stream other (Parser.predictRemembered network decision >>= next)
      (Parser.predictRemembered network decision >>= otherNext) run twin := by
  have isRun := Repeats.outcome_predictRemembered network decision run
  have isTwin := Repeats.outcome_predictRemembered network decision twin
  rw [abreast.cache_eq, abreast.precedence_eq] at isRun
  cases present : twin.cache.automata[decision]? with
  | none =>
      simp only [present] at isRun isTwin
      constructor <;> rw [outcome_bind, outcome_bind, isRun, isTwin]
      · exact .fault .noAutomaton
      · exact abreast
  | some automaton =>
      simp only [present] at isRun isTwin
      have alike :=
        Prediction.alike_predictRemembered shows
          (settingOf network automaton twin.precedence) abreast.places
          ⟨twin.cache.store, automaton⟩
      rw [alike.1] at isTwin
      refine after isRun isTwin (rest (abreast.within ?_ ?_ _) alike.2)
      · exact Prediction.continues_predictRemembered _ _ _ _
      · exact Prediction.continues_predictRemembered _ _ _ _

/-- What follows a prediction in context agrees if it does however the prediction ends. -/
theorem bindInContext
    (network : Network)
    (decision : Nat)
    {next : Prediction.Outcome → Walk σ α}
    {otherNext : Prediction.Outcome → Walk τ α}
    (rest :
      ∀ {run : Run σ} {twin : Run τ} {result otherResult : Prediction.Outcome},
        Run.Abreast look stream other run twin →
          Prediction.Outcome.Alike look run.tokens twin.tokens run.position result
              otherResult →
            Agrees look stream other (next result) (otherNext otherResult) run twin) :
    Agrees look stream other (Parser.predictInContext network decision >>= next)
      (Parser.predictInContext network decision >>= otherNext) run twin := by
  have isRun := Repeats.outcome_predictInContext network decision run
  have isTwin := Repeats.outcome_predictInContext network decision twin
  rw [abreast.cache_eq, abreast.precedence_eq, abreast.returnStates_eq] at isRun
  cases present : twin.cache.automata[decision]? with
  | none =>
      simp only [present] at isRun isTwin
      constructor <;> rw [outcome_bind, outcome_bind, isRun, isTwin]
      · exact .fault .noAutomaton
      · exact abreast
  | some automaton =>
      simp only [present] at isRun isTwin
      have alike :=
        Prediction.alike_predictInContext shows
          (settingOf network automaton twin.precedence) abreast.places automaton.decisionState
          (twin.returnStates network) twin.cache.store
      rw [alike.1] at isTwin
      refine after isRun isTwin (rest (abreast.within ?_ ?_ _) alike.2)
      · exact Prediction.continues_predictInContext _ _ _ _ _ _
      · exact Prediction.continues_predictInContext _ _ _ _ _ _

/-- A decision is predicted in the same way. -/
theorem predict
    (network : Network)
    (state : Network.State) :
    Agrees look stream other (Parser.predict network state) (Parser.predict network state) run
      twin := by
  refine requiring abreast fun decision _ => bindRemembered shows abreast network decision ?_
  intro run twin result otherResult abreast alike
  cases alike with
  | needsFullContext =>
      refine bindInContext shows abreast network decision ?_
      exact fun abreast alike => conclude shows abreast alike
  | predicted alternative => exact .pure abreast alternative
  | noViableAlternative le places => exact rejectAlternatives shows abreast le places

omit shows in
theorem startRound
    (network : Network)
    (state : Network.State)
    (target : Nat) :
    Agrees look stream other (Parser.startRound network state target)
      (Parser.startRound network state target) run twin := by
  unfold Parser.startRound
  split
  · refine .get ?_
    rw [abreast.recursions_eq]
    refine requiring abreast fun outer _ => ?_
    exact ⟨.ok (), abreast.change (.inRound network outer state) (.inRound network outer state)⟩
  · exact .pure abreast ()

omit shows in
theorem invokeRule
    (network : Network)
    (caller target rule : Nat)
    (precedence : Int) :
    Agrees look stream other (Parser.invokeRule network caller target rule precedence)
      (Parser.invokeRule network caller target rule precedence) run twin :=
  .change abreast (.invoking network caller target rule precedence)
    (.invoking network caller target rule precedence)

theorem checkPrecedence (highest : Int) :
    Agrees look stream other (Parser.checkPrecedence grammar highest)
      (Parser.checkPrecedence grammar highest) run twin := by
  refine .get ?_
  rw [abreast.precedence_eq]
  split
  · refine .reject abreast shows abreast.look_current ?_
    rw [abreast.context_eq, abreast.ruleOf_eq]
  · exact .pure abreast ()

/-- An edge is crossed in the same way. -/
theorem crossEdge
    (state : Network.State)
    (edge : Edge) :
    Agrees look stream other (Parser.crossEdge grammar state edge)
      (Parser.crossEdge grammar state edge) run twin := by
  have matching :
      ∀ edge : Edge,
        let looks (ρ : Type) [TokenSource ρ] : Walk ρ Unit := do
          if edge.consumes (← MonadState.get).current.type minTokenType maxSetTokenType then
            Parser.consumeAny grammar
          else
            Parser.rejectCurrent grammar
        Agrees look stream other (looks σ) (looks τ) run twin := by
    intro edge
    refine .get ?_
    rw [abreast.type_current shows]
    split
    · exact consumeAny shows abreast grammar
    · exact rejectCurrent shows abreast grammar
  cases edge with
  | epsilon target => exact startRound abreast grammar.network state target
  | atom _ label =>
      refine .get ?_
      rw [abreast.type_current shows]
      split
      · exact consume shows abreast
      · exact rejectCurrent shows abreast grammar
  | range target first last => exact matching (.range target first last)
  | set target symbols => exact matching (.set target symbols)
  | notSet target symbols => exact matching (.notSet target symbols)
  | wildcard => exact consumeAny shows abreast grammar
  | call target rule precedence follow => exact invokeRule abreast _ _ _ _ _
  | predicate => exact .pure abreast ()
  | action => exact .pure abreast ()
  | precedence _ highest => exact checkPrecedence shows abreast grammar highest

/-- A state inside a rule is left in the same way. -/
theorem leaveState :
    Agrees look stream other (Parser.leaveState grammar) (Parser.leaveState grammar) run
      twin := by
  have crossing :
      ∀ {run : Run σ} {twin : Run τ} (state : Network.State) (alternative : Nat),
        Run.Abreast look stream other run twin →
          let crosses (ρ : Type) [TokenSource ρ] : Walk ρ Unit := do
            let edge ← Parser.require state.edges[alternative - 1]? .noEdge
            Parser.crossEdge grammar state edge
            modify fun run => { run with state := edge.target }
          Agrees look stream other (crosses σ) (crosses τ) run twin := by
    intro run twin state alternative abreast
    refine requiring abreast fun edge _ => ?_
    refine (crossEdge shows abreast grammar state edge).bind fun _ abreast => ?_
    exact .change abreast (.moved edge.target) (.moved edge.target)
  refine .get ?_
  rw [abreast.state_eq]
  dsimp only
  split
  · refine (checkCurrent shows abreast grammar).bind fun _ abreast => ?_
    refine (predict shows abreast grammar.network _).bind fun alternative abreast => ?_
    exact crossing _ alternative abreast
  · exact crossing _ 1 abreast

omit shows in
/-- A rule is left at its end in the same way. -/
theorem leaveRule (network : Network) :
    Agrees look stream other (Parser.leaveRule network) (Parser.leaveRule network) run twin := by
  have goesOn :
      ∀ {run : Run σ} {twin : Run τ} (caller : Option Nat),
        Run.Abreast look stream other run twin →
          Agrees look stream other (goBehind network caller) (goBehind network caller) run
            twin := by
    intro run twin caller abreast
    refine requiring abreast fun follow _ => ?_
    exact .change abreast (.moved follow) (.moved follow)
  have isRun := outcome_leaveRule network run
  have isTwin := outcome_leaveRule network twin
  have sameRule :
      (network.state run.state).rule.any network.isLeftRecursive =
        (network.state twin.state).rule.any network.isLeftRecursive := by
    rw [abreast.state_eq]
  rw [sameRule] at isRun
  by_cases recursive :
    (network.state twin.state).rule.any network.isLeftRecursive = true
  · rw [if_pos recursive] at isRun isTwin
    cases innermost : twin.recursions with
    | nil =>
        rw [abreast.recursions_eq, innermost] at isRun
        rw [innermost] at isTwin
        exact congr isRun isTwin (.fail abreast .noRecursionToLeave)
    | cons outer recursions =>
        rw [abreast.recursions_eq, innermost] at isRun
        rw [innermost] at isTwin
        have leaves :=
          abreast.change (.leaving recursions outer.parent) (.leaving recursions outer.parent)
        exact congr isRun isTwin (goesOn outer.caller leaves)
  · rw [if_neg recursive] at isRun isTwin
    rw [abreast.context_eq, abreast.link_eq] at isRun
    cases isParent : (twin.link twin.context).parent with
    | none =>
        rw [isParent] at isRun isTwin
        exact congr isRun isTwin (.fail abreast .noInvocationToLeave)
    | some parent =>
        rw [isParent] at isRun isTwin
        have leaves := abreast.change (.returned parent) (.returned parent)
        exact congr isRun isTwin (goesOn (twin.link twin.context).caller leaves)

/-- A step that is taken leads to the same. -/
theorem stepOnce :
    Agrees look stream other (Parser.stepOnce grammar) (Parser.stepOnce grammar) run twin := by
  refine .get ?_
  rw [abreast.state_eq]
  split
  · exact leaveRule abreast grammar.network
  · exact leaveState shows abreast grammar

/-- One step of a walk leads to the same, be it that the walk gives up or has ended. -/
theorem advance :
    Agrees look stream other (Parser.advance grammar) (Parser.advance grammar) run twin := by
  have counted := abreast.change .counted .counted
  have isRun := outcome_advance grammar run
  have isTwin := outcome_advance grammar twin
  have sameEnd :
      run.counted.hasEnded grammar.network = twin.counted.hasEnded grammar.network := by
    rw [Run.hasEnded, Run.hasEnded, counted.state_eq, counted.context_eq, counted.link_eq]
  rw [counted.idleSteps_eq, sameEnd] at isRun
  by_cases idle : idleLimit grammar.network < twin.counted.idleSteps
  · rw [if_pos idle] at isRun isTwin
    exact congr isRun isTwin (.fail counted .noProgress)
  · rw [if_neg idle] at isRun isTwin
    cases hasEnded : twin.counted.hasEnded grammar.network with
    | true =>
        rw [hasEnded, if_pos rfl] at isRun isTwin
        exact congr isRun isTwin (.pure counted true)
    | false =>
        rw [hasEnded, if_neg Bool.false_ne_true] at isRun isTwin
        have goesOn :
            ∀ {ρ : Type} [TokenSource ρ] (run : Run ρ),
              andThen (outcome (Parser.stepOnce grammar) run) (fun after => (.ok false, after)) =
                outcome (Parser.stepOnce grammar >>= fun _ => Pure.pure false) run := by
          intro ρ _ run
          rw [outcome_bind]
          rfl
        rw [goesOn] at isRun isTwin
        refine congr isRun isTwin ?_
        exact (stepOnce shows counted grammar).bind fun _ abreast => .pure abreast false

end Steps

section Walking

variable (shows : Token.Shows look) (grammar : ParserGrammar)

include shows

/-- Where one walk comes to something, the other one comes to the same. -/
theorem walk?_of_some
    (abreast : Run.Abreast look stream other run twin)
    {comes : Except Failure Unit × Run σ}
    (isRun : Run.walk? grammar run = some comes) :
    ∃ otherComes : Except Failure Unit × Run τ,
      Run.walk? grammar twin = some otherComes ∧
        ResultAlike look stream other comes.1 otherComes.1 ∧
          comes.2.Abreast look stream other otherComes.2 := by
  refine walk?_induction
    (fun run comes =>
      ∀ twin, Run.Abreast look stream other run twin →
        ∃ otherComes : Except Failure Unit × Run τ,
          Run.walk? grammar twin = some otherComes ∧
            ResultAlike look stream other comes.1 otherComes.1 ∧
              comes.2.Abreast look stream other otherComes.2)
    ?_ ?_ ?_ isRun twin abreast
  · intro run next comes goesOn inductionHypothesis twin abreast
    obtain ⟨result, onward⟩ := advance shows abreast grammar
    cases isTwin : outcome (Parser.advance grammar) twin with
    | mk otherResult otherNext =>
        rw [goesOn, isTwin] at result onward
        cases result
        rw [walk?_of_goesOn isTwin]
        exact inductionHypothesis otherNext onward
  · intro run next ended twin abreast
    obtain ⟨result, onward⟩ := advance shows abreast grammar
    cases isTwin : outcome (Parser.advance grammar) twin with
    | mk otherResult otherNext =>
        rw [ended, isTwin] at result onward
        cases result
        exact ⟨_, walk?_of_ended isTwin, .ok (), onward⟩
  · intro run next failure failed twin abreast
    obtain ⟨result, onward⟩ := advance shows abreast grammar
    cases isTwin : outcome (Parser.advance grammar) twin with
    | mk otherResult otherNext =>
        rw [failed, isTwin] at result onward
        cases result with
        | fault fault => exact ⟨_, walk?_of_failed isTwin, .fault fault, onward⟩
        | syntaxError alike => exact ⟨_, walk?_of_failed isTwin, .syntaxError alike, onward⟩

/-- Whole walks come to the same, and one never ends only if the other never does. -/
theorem walk (abreast : Run.Abreast look stream other run twin) :
    Agrees look stream other (Parser.walk grammar) (Parser.walk grammar) run twin := by
  cases isRun : Run.walk? grammar run with
  | some comes =>
      obtain ⟨otherComes, isTwin, result, onward⟩ := walk?_of_some shows grammar abreast isRun
      constructor <;> rw [outcome_walk_of_some isRun, outcome_walk_of_some isTwin]
      · exact result
      · exact onward
  | none =>
      have isTwin : Run.walk? grammar twin = none := by
        cases comesTo : Run.walk? grammar twin with
        | none => rfl
        | some comes =>
            obtain ⟨_, isSome, -⟩ := walk?_of_some shows grammar abreast.symm comesTo
            rw [isRun] at isSome
            cases isSome
      constructor <;> rw [outcome_walk_of_none isRun, outcome_walk_of_none isTwin]
      · exact .fault .endless
      · exact abreast

omit shows in
/-- The rule that the walks began with is left in the same way. -/
theorem leaveFirst
    (abreast : Run.Abreast look stream other run twin)
    (network : Network)
    (rule : Nat) :
    Agrees look stream other (Parser.leaveFirst network rule) (Parser.leaveFirst network rule)
      run twin := by
  unfold Parser.leaveFirst
  split
  · have isRecursions := abreast.recursions_eq
    refine .get ?_
    cases innermost : twin.recursions with
    | nil =>
        rw [innermost] at isRecursions
        simp only [isRecursions]
        exact .fail abreast .noRecursionToLeave
    | cons outer recursions =>
        rw [innermost] at isRecursions
        simp only [isRecursions]
        have leaves :=
          abreast.change (.leaving recursions outer.parent) (.leaving recursions outer.parent)
        refine after (outcome_set _ _) (outcome_set _ _) ⟨?_, leaves⟩
        rw [outcome_pure, outcome_pure, abreast.context_eq]
        exact .ok twin.context
  · refine .get ?_
    rw [abreast.context_eq]
    exact .pure abreast twin.context

/-- A rule is parsed in the same way. -/
theorem parseRule
    (abreast : Run.Abreast look stream other run twin)
    (rule : Nat) :
    Agrees look stream other (Parser.parseRule grammar rule) (Parser.parseRule grammar rule)
      run twin := by
  rw [parseRule_eq, parseRule_eq]
  have begins := change abreast (.begun grammar.network rule) (.begun grammar.network rule)
  refine begins.bind fun _ abreast => ?_
  refine (walk shows grammar abreast).bind fun _ abreast => ?_
  exact leaveFirst abreast grammar.network rule

end Walking

end Agrees

/-- Results of parsing a rule over two streams that differ in hidden tokens at most. -/
inductive RuleResultAlike
    (look : Token → Token)
    (stream : TokenStream σ)
    (other : TokenStream τ) :
    Except RuleError ParseTree → Except RuleError ParseTree → Prop
  | tree
      {tree otherTree : ParseTree}
      (seen : tree.seen look = otherTree.seen look) :
      RuleResultAlike look stream other (.ok tree) (.ok otherTree)
  | syntaxError
      {error otherError : SyntaxError}
      (alike : ErrorAlike look stream other error otherError) :
      RuleResultAlike look stream other (.error (.syntaxErrors [error]))
        (.error (.syntaxErrors [otherError]))
  | fault (fault : Fault) :
      RuleResultAlike look stream other (.error (.fault fault)) (.error (.fault fault))
  | unknownRule (rule : String) :
      RuleResultAlike look stream other (.error (.unknownRule rule)) (.error (.unknownRule rule))

section Invoking

variable {source : σ} {twinSource : τ} (shows : Token.Shows look)
  (errorFree : (TokenStream.ofSource source).ErrorFree)
  (otherErrorFree : (TokenStream.ofSource twinSource).ErrorFree)
  (alike :
    (TokenStream.ofSource source).seen look = (TokenStream.ofSource twinSource).seen look)

include shows errorFree otherErrorFree alike

/-- New parsers over streams that look the same parse a rule to the same. -/
theorem alike_invokeNumber
    (grammar : ParserGrammar)
    (rule : Nat) :
    RuleResultAlike look (.ofSource source) (.ofSource twinSource)
      ((ofStream grammar (.ofSource source)).invokeNumber rule).1
      ((ofStream grammar (.ofSource twinSource)).invokeNumber rule).1 := by
  have started :=
    Run.Abreast.start (.ofSource source) (.ofSource twinSource) alike
      (PredictionCache.initial grammar.network)
  obtain ⟨result, abreast⟩ := Agrees.parseRule shows grammar started rule
  cases isRun :
    outcome (parseRule grammar rule)
      (Run.start (.ofSource source) (PredictionCache.initial grammar.network)) with
  | mk value last =>
      cases isTwin :
        outcome (parseRule grammar rule)
          (Run.start (.ofSource twinSource) (PredictionCache.initial grammar.network)) with
      | mk otherValue otherLast =>
          rw [isRun, isTwin] at result abreast
          have comes :=
            @invokeNumber_eq _ _ (ofStream grammar (.ofSource source)) rule value last isRun
              (errorFree.continues abreast.taken)
          have otherComes :=
            @invokeNumber_eq _ _ (ofStream grammar (.ofSource twinSource)) rule otherValue
              otherLast isTwin (otherErrorFree.continues abreast.otherTaken)
          rw [comes, otherComes]
          cases result with
          | ok root =>
              refine .tree ?_
              simp only [ParseTree.seen, abreast.seen_nodes]
          | fault fault => exact .fault fault
          | syntaxError alikeErrors => exact .syntaxError alikeErrors

end Invoking

namespace Suffixes

/-- The suffix `+` behind a blank. -/
def spaced : ListedTokens :=
  .ofList [(1, "i", 0), (9, " ", 1), (2, "+", 0)]

/-- The suffix `+` behind as much other white space, in two hidden tokens. -/
def tabbed : ListedTokens :=
  .ofList [(1, "i", 0), (9, "\t", 1), (9, "", 2), (2, "+", 0)]

end Suffixes

end Parser

end GrammarService
