import GrammarService.Proofs.Artifact.Loading
import GrammarService.Proofs.Execution.Results
import GrammarService.Proofs.Request.Courses
import GrammarService.Proofs.Request.Resolution
import GrammarService.Service.Site
import Mathlib.Logic.Basic

namespace GrammarService

/-!
# The two shapes of a reply

A request is replied to with a tree and without errors, or with errors and without a tree. The other
parts of the reply tell how far the request came: the rules of the parser if there was one, and the
name of the grammar that the compiler complained about, or else of the grammar as a whole.
-/

namespace Request

/-- Whoever answers loads compiled grammars from files, whatever is in them, and executes them. -/
structure Interprets
    {σ : Type}
    (handler : Dialogue.Handler Call.Answer σ) :
    Prop where
  loads :
    ∀ session layout state,
      ∃ files folder registry,
        (handler (.load session layout) state).1 =
          ((Artifacts.load files folder layout).run Registry.perform registry).1
  executes :
    ∀ artifacts source rule state,
      (handler (.execute artifacts source rule) state).1 =
        GrammarService.execute artifacts.parser artifacts.lexer source rule

/-- A parser was constructed for a request, from grammars that had been loaded. -/
def Constructs
    (request : Request)
    (events : History)
    (grammar : ParserGrammar)
    (parser : Parser Lexer) :
    Prop :=
  ∃ session layout artifacts,
    ⟨.load session layout, .ok artifacts⟩ ∈ events ∧
      grammar = artifacts.parser ∧
        PutsToWork artifacts.parser artifacts.lexer request.source parser

/-- The compiler gave diagnostics for a grammar. -/
def Diagnosed
    (events : History)
    (name : String) :
    Prop :=
  ∃ session diagnostics,
    ⟨.compile session name, .ok diagnostics⟩ ∈ events ∧ diagnostics ≠ []

/-- A request was replied to with a tree. -/
structure Succeeds
    (request : Request)
    (events : History)
    (status : Nat)
    (response : Response) :
    Prop where
  status : status = 200
  errors : response.errors = []
  isRule : request.rule ∈ response.rules
  filled : response.tree ≠ ""
  /-- The tree is the one that the constructed parser reads the source as. -/
  parsed :
    ∃ grammar parser tree,
      request.Constructs events grammar parser ∧
        response.rules = grammar.ruleNames.toList ∧
          (parser.invoke request.rule).1 = .ok tree ∧
            response.tree = tree.render grammar.ruleNames
  named :
    ∃ layout grammars,
      request.resolve = .ok (layout, grammars) ∧ response.grammarName = layout.grammarName

/-- A name is the one by which the reply to a failed request calls the grammar. -/
structure NamesGrammar
    (request : Request)
    (events : History)
    (name : String) :
    Prop where
  rejected : ∀ error, request.resolve = .error error → name = ""
  diagnosed :
    ∀ diagnosed,
      Diagnosed events diagnosed →
        name = diagnosed ∧
          ∃ layout grammars,
            request.resolve = .ok (layout, grammars) ∧
              ∃ grammar ∈ grammars, Header.declaredName? grammar.text = some diagnosed
  undiagnosed :
    (∀ name, ¬ Diagnosed events name) →
      ∀ layout grammars,
        request.resolve = .ok (layout, grammars) → name = layout.grammarName

/-- A request was replied to with errors. -/
structure Fails
    (request : Request)
    (events : History)
    (response : Response) :
    Prop where
  errors : response.errors ≠ []
  tree : response.tree = ""
  rules :
    ∀ grammar parser,
      request.Constructs events grammar parser → response.rules = grammar.ruleNames.toList
  noRules :
    (∀ grammar parser, ¬ request.Constructs events grammar parser) → response.rules = []
  named : request.NamesGrammar events response.grammarName

section Shapes

variable
  {request : Request}
  {events : History}
  {session : Session}
  {layout : Layout}
  {grammars : List NamedGrammar}
  {names : List String}

/-- A reply is not of both shapes. -/
theorem Succeeds.not_fails
    {status : Nat}
    {response : Response}
    (succeeds : request.Succeeds events status response) :
    ¬ request.Fails events response :=
  fun fails => fails.errors succeeds.errors

@[simp] theorem not_diagnosed_nil
    {name : String} :
    ¬ Diagnosed [] name := by
  simp [Diagnosed]

@[simp] theorem diagnosed_cons_iff
    {event : Sigma Call.Answer}
    {name : String} :
    Diagnosed (event :: events) name ↔
      (∃ session diagnostics,
          event = ⟨.compile session name, .ok diagnostics⟩ ∧ diagnostics ≠ []) ∨
        Diagnosed events name := by
  simp only [Diagnosed, List.mem_cons, or_and_right, exists_or, eq_comm]

@[simp] theorem diagnosed_append_iff
    {later : History}
    {name : String} :
    Diagnosed (events ++ later) name ↔ Diagnosed events name ∨ Diagnosed later name := by
  simp only [Diagnosed, List.mem_append, or_and_right, exists_or]

/-- The compiler gives no diagnostics on the course of a request. -/
@[simp] theorem not_diagnosed_course
    {name : String} :
    ¬ Diagnosed (course session grammars names) name := by
  rintro ⟨other, diagnostics, present, isDiagnostic⟩
  have noneGiven : name ∈ names ∧ session = other ∧ diagnostics = [] := by
    simpa [course] using present
  exact isDiagnostic noneGiven.2.2

/-- Where the compiler gave no diagnostics, the grammar is called by its name as a whole. -/
theorem namesGrammar_of_silent
    (resolved : request.resolve = .ok (layout, grammars))
    (silent : ∀ name, ¬ Diagnosed events name) :
    request.NamesGrammar events layout.grammarName where
  rejected := fun _ rejected => by cases rejected.symm.trans resolved
  diagnosed := fun name isDiagnosed => absurd isDiagnosed (silent name)
  undiagnosed := fun _ _ _ resolvedHere => by
    cases resolvedHere.symm.trans resolved
    rfl

/-- Where the compiler gave diagnostics, the grammar is called by the name they are about. -/
theorem namesGrammar_of_diagnosed
    (resolved : request.resolve = .ok (layout, grammars))
    {name : String}
    (isName : name ∈ layout.compilationOrder)
    (isDiagnosed : ∀ other, Diagnosed events other ↔ other = name) :
    request.NamesGrammar events name where
  rejected := fun _ rejected => by cases rejected.symm.trans resolved
  diagnosed := fun other diagnosed => by
    obtain rfl := (isDiagnosed other).mp diagnosed
    have resolves := resolves_of_resolve resolved
    rw [resolves.compilationOrder_eq] at isName
    obtain ⟨grammar, isGrammar, rfl⟩ := List.mem_map.mp isName
    exact ⟨rfl, layout, grammars, resolved, grammar, isGrammar,
      resolves.declaredName?_eq isGrammar⟩
  undiagnosed := fun silent => absurd ((isDiagnosed name).mpr rfl) (silent name)

/-- What stops a request before there is a parser is replied with errors and a name. -/
theorem fails_of_stopped
    {name : String}
    {failure : RequestFailure}
    (messages : failure.messages ≠ [])
    (notLoaded : ∀ session layout artifacts, ⟨.load session layout, .ok artifacts⟩ ∉ events)
    (named : request.NamesGrammar events name) :
    request.Fails events (Outcome.stopped name failure).reply.2 where
  errors := messages
  tree := rfl
  rules := fun _ _ ⟨session, layout, artifacts, present, _⟩ =>
    absurd present (notLoaded session layout artifacts)
  noRules := fun _ => rfl
  named := named

/-- What a request in its session can be replied to that was stopped before it executed anything, or
that executed what was loaded. -/
theorem EndsIn.fails_or_executed
    (resolved : request.resolve = .ok (layout, grammars))
    {history : History}
    {outcome : Outcome}
    (ends : EndsIn request session layout grammars history outcome) :
    request.Fails (history ++ [⟨.close session, ()⟩]) outcome.reply.2 ∨
      ∃ artifacts result,
        history =
            course session grammars layout.compilationOrder ++
              [⟨.load session layout, .ok artifacts⟩] ++
                [⟨.execute artifacts request.source request.rule, result⟩] ∧
          outcome = .ofExecution layout.grammarName result := by
  cases ends with
  | notWritten isSplit cause =>
      exact .inl (fails_of_stopped (by simp [RequestFailure.messages]) (by simp [course])
        (namesGrammar_of_silent resolved (by simp)))
  | notRun isSplit cause =>
      exact .inl (fails_of_stopped (by simp [RequestFailure.messages]) (by simp [course])
        (namesGrammar_of_silent resolved (by simp)))
  | notCompiled isSplit present =>
      refine .inl (fails_of_stopped present (by simp [course])
        (namesGrammar_of_diagnosed resolved (by simp [isSplit]) fun other => ?_))
      simp [present, eq_comm]
  | notLoaded cause =>
      exact .inl (fails_of_stopped (by simp [RequestFailure.messages]) (by simp [course])
        (namesGrammar_of_silent resolved (by simp)))
  | executed artifacts result => exact .inr ⟨artifacts, result, rfl, rfl⟩

/-- The parsers that were constructed for a request that executed what was loaded. -/
theorem constructs_executed_iff
    {artifacts : Artifacts}
    {result : Except ExecutionError ParseOutput}
    {grammar : ParserGrammar}
    {parser : Parser Lexer} :
    request.Constructs
        (course session grammars names ++ [⟨.load session layout, .ok artifacts⟩] ++
          [⟨.execute artifacts request.source request.rule, result⟩] ++ [⟨.close session, ()⟩])
        grammar parser ↔
      grammar = artifacts.parser ∧
        PutsToWork artifacts.parser artifacts.lexer request.source parser := by
  constructor
  · rintro ⟨other, otherLayout, loaded, present, rfl, works⟩
    obtain ⟨-, rfl⟩ : (other = session ∧ otherLayout = layout) ∧ loaded = artifacts := by
      simpa [course] using present
    exact ⟨rfl, works⟩
  · rintro ⟨rfl, works⟩
    exact ⟨session, layout, artifacts, by simp, rfl, works⟩

/-- What the execution of loaded grammars came to is replied in one of the two shapes. -/
theorem succeeds_or_fails_of_executed
    (resolved : request.resolve = .ok (layout, grammars))
    {artifacts : Artifacts}
    (haveNames : ∀ name ∈ artifacts.parser.ruleNames, name ≠ "")
    {result : Except ExecutionError ParseOutput}
    (executes :
      Executes artifacts.parser artifacts.lexer request.source request.rule result)
    {events : History}
    (isAll :
      events =
        course session grammars names ++ [⟨.load session layout, .ok artifacts⟩] ++
          [⟨.execute artifacts request.source request.rule, result⟩] ++ [⟨.close session, ()⟩]) :
    request.Succeeds events (Outcome.ofExecution layout.grammarName result).reply.1
        (Outcome.ofExecution layout.grammarName result).reply.2 ∨
      request.Fails events (Outcome.ofExecution layout.grammarName result).reply.2 := by
  have named : request.NamesGrammar events layout.grammarName :=
    namesGrammar_of_silent resolved (by simp [isAll])
  have constructs (grammar : ParserGrammar) (parser : Parser Lexer) :
      request.Constructs events grammar parser ↔
        grammar = artifacts.parser ∧
          PutsToWork artifacts.parser artifacts.lexer request.source parser := by
    rw [isAll]
    exact constructs_executed_iff
  cases executes with
  | notConstructed idle error =>
      refine .inr ⟨by simp [Outcome.ofExecution, Outcome.reply, RequestFailure.messages,
        ExecutionError.messages], rfl, ?_, ?_, named⟩
      · intro grammar parser constructed
        exact absurd ((constructs grammar parser).mp constructed).2 (idle parser)
      · exact fun _ => rfl
  | @failed working works error rules messages =>
      refine .inr ⟨messages, rfl, ?_, ?_, named⟩
      · intro grammar parser constructed
        rw [((constructs grammar parser).mp constructed).1]
        exact rules
      · exact fun notConstructed =>
          absurd ((constructs _ working).mpr ⟨rfl, works⟩) (notConstructed _ _)
  | @parsed working works isRule tree parses =>
      exact .inl
        { status := rfl
          errors := rfl
          isRule := isRule
          filled :=
            ParseTree.render_ne_empty haveNames (Parser.size_nodes_pos_of_invoke parses)
          parsed :=
            ⟨artifacts.parser, working, tree, (constructs _ _).mpr ⟨rfl, works⟩, rfl, parses, rfl⟩
          named := ⟨layout, grammars, resolved, rfl⟩ }

end Shapes

/-- What was loaded came from files, and what was executed came to what executing it comes to. -/
structure Interpreted (events : History) : Prop where
  loaded :
    ∀ session layout answer,
      ⟨.load session layout, answer⟩ ∈ events →
        ∃ files folder registry,
          answer = ((Artifacts.load files folder layout).run Registry.perform registry).1
  executed :
    ∀ artifacts source rule answer,
      ⟨.execute artifacts source rule, answer⟩ ∈ events →
        answer = GrammarService.execute artifacts.parser artifacts.lexer source rule

/-- Where grammars are loaded and executed, each run has loaded and executed what it did. -/
theorem Interprets.interpreted
    {σ α : Type}
    {handler : Dialogue.Handler Call.Answer σ}
    (interprets : Interprets handler)
    (dialogue : Dialogue Call.Answer α)
    (state : σ) :
    Interpreted (dialogue.transcript handler state) where
  loaded session layout answer present := by
    obtain ⟨before, isAnswer⟩ := Dialogue.exists_state_of_mem_transcript present
    obtain ⟨files, folder, registry, loads⟩ := interprets.loads session layout before
    exact ⟨files, folder, registry, isAnswer.trans loads⟩
  executed artifacts source rule answer present := by
    obtain ⟨before, isAnswer⟩ := Dialogue.exists_state_of_mem_transcript present
    exact isAnswer.trans (interprets.executes artifacts source rule before)

/-- A site loads grammars from its files and executes them. -/
theorem interprets_perform (site : Site) : Interprets site.perform where
  loads session _ state := ⟨state.files, session.folder, state.registry, rfl⟩
  executes _ _ _ _ := rfl

/-- A request that came to an end is replied to in one of the two shapes. -/
theorem Ends.succeeds_or_fails
    {request : Request}
    {events : History}
    {outcome : Outcome}
    (ends : Ends request events outcome)
    (interpreted : Interpreted events) :
    request.Succeeds events outcome.reply.1 outcome.reply.2 ∨
      request.Fails events outcome.reply.2 := by
  cases ends with
  | misshapen rejected =>
      exact .inr (fails_of_stopped (by simp [RequestFailure.messages]) (by simp)
        ⟨fun _ _ => rfl, fun _ => by simp,
          fun _ _ _ resolved => by cases rejected.symm.trans resolved⟩)
  | unavailable resolved cause =>
      exact .inr (fails_of_stopped (by simp [RequestFailure.messages]) (by simp)
        (namesGrammar_of_silent resolved (by simp)))
  | notCreated resolved cause =>
      exact .inr (fails_of_stopped (by simp [RequestFailure.messages]) (by simp)
        (namesGrammar_of_silent resolved (by simp)))
  | @closed layout _ resolved session history outcome ends =>
      rcases ends.fails_or_executed resolved with fails | ⟨artifacts, result, rfl, rfl⟩
      · exact .inr fails
      · obtain ⟨files, folder, registry, loads⟩ :=
          interpreted.loaded session layout (.ok artifacts) (by simp)
        have executes :=
          interpreted.executed artifacts request.source request.rule result (by simp)
        refine succeeds_or_fails_of_executed resolved
          (Artifacts.ruleNames_ne_empty_of_load loads.symm) ?_ rfl
        rw [executes]
        exact executes_execute ..

/-- Where grammars are loaded from files and executed, each request is replied to with a tree, or
with errors, and never with both. -/
theorem reply_succeeds_or_fails
    {σ : Type}
    {handler : Dialogue.Handler Call.Answer σ}
    (interprets : Interprets handler)
    (request : Request)
    (state : σ) :
    Xor
      (request.Succeeds (request.handle.transcript handler state)
        (request.handle.run handler state).1.reply.1 (request.handle.run handler state).1.reply.2)
      (request.Fails (request.handle.transcript handler state)
        (request.handle.run handler state).1.reply.2) := by
  have ends := request.ends_transcript handler state
  have interpreted := interprets.interpreted request.handle state
  rcases ends.succeeds_or_fails interpreted with succeeds | fails
  · exact .inl ⟨succeeds, succeeds.not_fails⟩
  · exact .inr ⟨fails, fun succeeds => succeeds.not_fails fails⟩

/-! A request whose grammar the compiler complains about. -/

namespace Complaint

def request : Request where
  grammar := some "grammar Sum; sum : NUMBER"
  lexer := none
  parser := none
  source := "1"
  rule := "sum"

def site : Site where
  sessionRoot := []
  retainSessions := false
  compiler := ⟨.ok (), fun _ _ files => (.ok ["error(50)"], files)⟩

def state : Site.State := ⟨.empty, ⟨[], []⟩, ["a"]⟩

theorem reply_eq :
    (site.respond state request).1 = (400, ⟨"Sum", ["error(50)"], [], ""⟩) := by
  decide +kernel

/-- The reply has the shape of a failure, and names the grammar. -/
theorem fails_complaint :
    request.Fails (request.handle.transcript site.perform state)
      ⟨"Sum", ["error(50)"], [], ""⟩ := by
  have isReply := reply_eq
  have shapes := reply_succeeds_or_fails (interprets_perform site) request state
  simp only [Site.respond] at isReply
  rw [isReply] at shapes
  exact shapes.or.resolve_left fun succeeds => by simpa using succeeds.errors

end Complaint

end Request

end GrammarService
